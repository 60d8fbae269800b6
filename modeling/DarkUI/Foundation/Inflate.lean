import Mathlib.Data.List.Basic

/-! # A decoder that is fed in pieces

A format says of the bytes seen so far whether they begin with a complete stream. A decoder
is called with a piece of the input and with room for a piece of the output, and has the
return codes of zlib. Its laws are what zlib documents of them.
-/

namespace Inflate

abbrev Bytes := List UInt8

/-- What the bytes seen so far are: they begin with a stream of so many bytes, they could
still become one, or neither. -/
inductive Decoded
  | ended (used : Nat) (content : Bytes)
  | more
  | corrupt
  deriving DecidableEq

/-- A stream that has ended does not depend on what follows it. -/
structure Format where
  decode : Bytes → Decoded
  decode_nil : decode [] = .more
  decode_append {bytes : Bytes} {used : Nat} {content : Bytes} (following : Bytes) :
    decode bytes = .ended used content → decode (bytes ++ following) = .ended used content

theorem Format.decode_of_take (format : Format) {bytes content : Bytes} {used m n : Nat}
    (h : format.decode (bytes.take m) = .ended used content) (hmn : m ≤ n) :
    format.decode (bytes.take n) = .ended used content := by
  have hwithin : bytes.take m = (bytes.take n).take m := by rw [List.take_take, Nat.min_eq_left hmn]
  have hwhole := format.decode_append ((bytes.take n).drop m) h
  rwa [hwithin, List.take_append_drop] at hwhole

inductive Code
  | ok
  | streamEnd
  | needDict
  | dataError
  | memError
  | bufError
  deriving DecidableEq

/-- What a call answers: how much of the input was used, and the output. -/
structure Answer (σ : Type*) where
  code : Code
  consumed : Nat
  output : Bytes
  state : σ

structure Decoder (σ : Type*) where
  init : σ
  /-- A call with an input and room for some output. -/
  inflate : σ → Bytes → Nat → Answer σ

/-- Whether a call can be followed by another. -/
def Code.goesOn : Code → Bool
  | .ok | .bufError => true
  | _ => false

/-- A decoder decodes a format. Each call goes on until its input is used up or its room is,
and the end of a stream is told once all of its content was given. -/
structure Laws {σ : Type*} (z : Decoder σ) (format : Format) where
  /-- The state after an input that gave an output, within a stream. -/
  Seen : σ → Bytes → Bytes → Prop
  /-- The state after the end of a stream. -/
  Done : σ → Prop
  seen_init : Seen z.init [] []
  seen_inflate {s : σ} {fed out : Bytes} (input : Bytes) {room : Nat} :
    Seen s fed out → 0 < room → (z.inflate s input room).code.goesOn →
      Seen (z.inflate s input room).state (fed ++ input.take (z.inflate s input room).consumed)
        (out ++ (z.inflate s input room).output)
  decode_of_room {s : σ} {fed out : Bytes} {input : Bytes} {room : Nat} :
    Seen s fed out → (z.inflate s input room).code.goesOn →
      (z.inflate s input room).output.length < room →
      (z.inflate s input room).consumed = input.length ∧ format.decode (fed ++ input) = .more
  decode_of_streamEnd {s : σ} {fed out : Bytes} {input : Bytes} {room : Nat} :
    Seen s fed out → 0 < room → (z.inflate s input room).code = .streamEnd →
      format.decode (fed ++ input.take (z.inflate s input room).consumed) =
          .ended (fed.length + (z.inflate s input room).consumed)
            (out ++ (z.inflate s input room).output) ∧
        Done (z.inflate s input room).state
  consumed_le (s : σ) (input : Bytes) (room : Nat) :
    (z.inflate s input room).consumed ≤ input.length
  output_le (s : σ) (input : Bytes) (room : Nat) :
    (z.inflate s input room).output.length ≤ room
  inflate_done {s : σ} (input : Bytes) (room : Nat) :
    Done s → (z.inflate s input room).code = .streamEnd ∧ (z.inflate s input room).output = [] ∧
      Done (z.inflate s input room).state

end Inflate
