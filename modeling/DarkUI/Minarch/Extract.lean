import DarkUI.Foundation.Inflate
import DarkUI.Foundation.Stdio
import DarkUI.Minarch.Zip

/-! # Extracting a game from an archive

The entry that was found is copied or inflated in chunks into a file of its own. Any read
can fail after some bytes, any write can come up short, and what a write accepted may only
be written back when the file is closed.
-/

namespace DarkUI.Minarch.Zip

open Text Inflate

/-- `ZIP_CHUNK_SIZE` -/
def chunkSize : Nat := 65536

/-- The archive from the current position on and the file that is written, with how the
coming calls will turn out. -/
structure Io where
  rest : Bytes
  reads : Nat → Stdio.ReadOutcome
  dst : Stdio.Stream UInt8
  writes : Nat → Stdio.WriteOutcome

namespace Io

/-- What is left after a read of so many bytes. -/
def advance (io : Io) (n : Nat) : Io :=
  { io with rest := io.rest.drop n, reads := fun i => io.reads (i + 1) }

/-- `fread`, with `ferror`. A call for nothing does not read. -/
def fread (io : Io) (size : Nat) : Bytes × Bool × Io :=
  if size = 0 then ([], false, io)
  else
    match io.reads 0 with
    | .complete => (io.rest.take size, false, io.advance size)
    | .failed n => (io.rest.take (min n (size - 1)), true, io.advance (min n (size - 1)))

/-- `fwrite`, and whether everything was accepted. -/
def fwrite (io : Io) (bytes : Bytes) : Bool × Io :=
  if bytes = [] then (true, io)
  else
    let (written, dst) := io.dst.fwrite bytes (io.writes 0)
    (written = bytes.length, { io with dst, writes := fun i => io.writes (i + 1) })

end Io

/-- Whether a function that extracts an entry returned 0. -/
inductive Outcome
  | accepted (io : Io)
  | refused

/-- `Zip_copy` -/
def copy (io : Io) (size : Nat) : Outcome :=
  if size = 0 then .accepted io
  else
    let sz := min size chunkSize
    let (buffer, _, io) := io.fread sz
    if buffer.length ≠ sz then .refused
    else
      let (written, io) := io.fwrite buffer
      if !written then .refused else copy io (size - sz)
termination_by size
decreasing_by
  have hchunk : chunkSize = 65536 := rfl
  omega

variable {σ : Type*}

/-- The inner loop of `Zip_inflate`: the output for the input at hand is written until a call
leaves room. It gives the last return code, or nothing where the entry is refused. -/
def inflateChunk (z : Decoder σ) : Nat → Io → σ → Bytes → Option (Option (Code × σ × Io))
  | 0, _, _, _ => none
  | fuel + 1, io, s, input =>
      let call := z.inflate s input chunkSize
      match call.code with
      | .needDict | .dataError | .memError => some none
      | code =>
          let (written, io) := io.fwrite call.output
          if !written then some none
          else if call.output.length = chunkSize then
            inflateChunk z fuel io call.state (input.drop call.consumed)
          else some (some (code, call.state, io))

/-- The test that `Zip_inflate` ends with. -/
def accept (size : Nat) (ret : Code) (io : Io) : Outcome :=
  if size = 0 ∨ ret = .streamEnd then .accepted io else .refused

/-- The outer loop of `Zip_inflate`, with what is left of the size. -/
def inflateLoop (z : Decoder σ) : Nat → Io → σ → Code → Nat → Option Outcome
  | 0, _, _, _, _ => none
  | fuel + 1, io, s, ret, size =>
      let insize := min size chunkSize
      let (input, error, io) := io.fread insize
      if error then some .refused
      else if input = [] then some (accept size ret io)
      else
        match inflateChunk z fuel io s input with
        | none => none
        | some none => some .refused
        | some (some (ret, s, io)) =>
            let size := size - insize
            if size ≠ 0 ∧ ret ≠ .streamEnd then inflateLoop z fuel io s ret size
            else some (accept size ret io)

/-- `Zip_inflate` -/
def inflate (z : Decoder σ) (initializes : Bool) (fuel : Nat) (io : Io) (size : Nat) :
    Option Outcome :=
  if initializes then inflateLoop z fuel io z.init .ok size else some .refused

/-- How everything outside turns out. -/
structure Calls where
  /-- The archive can be opened. -/
  opens : Bool
  /-- The header and the name that an iteration reads come back whole. -/
  headers : Nat → Bool
  tmpDir : CString
  creates : Bool
  initializes : Bool
  reads : Nat → Stdio.ReadOutcome
  writes : Nat → Stdio.WriteOutcome
  close : Stdio.CloseOutcome

/-- The loop over the headers, where a read of a header can fail. -/
def scanCalls (headers : Nat → Bool) (content : Bytes) (extensions : List CString) :
    Nat → Nat → Option (Option Entry)
  | 0, _ => none
  | n + 1, position =>
      if !headers 0 then some none
      else
        match visit content extensions position with
        | .leave => some none
        | .found entry => some (some entry)
        | .overrun => none
        | .skip next => scanCalls (fun i => headers (i + 1)) content extensions n next

/-- What becomes of the archive: no entry is taken from it, `Game_open` gives up, or a file
is kept with what its stream held before it was closed and what was not read. -/
inductive Extraction
  | none
  | failed
  | kept (tmpPath : CString) (dst : Stdio.Stream UInt8) (rest : Bytes)
  deriving DecidableEq

/-- The extraction of an entry by its method. -/
def extractEntry (z : Decoder σ) (calls : Calls) (content : Bytes) (fuel : Nat) (entry : Entry) :
    Option Outcome :=
  let io : Io := ⟨content.drop entry.data, calls.reads, .opened, calls.writes⟩
  match entry.method with
  | 0 => some (copy io entry.compressedSize)
  | 8 => inflate z calls.initializes fuel io entry.compressedSize
  | _ => some .refused

/-- What `Game_open` does with an archive. One of 2^31 bytes or more cannot be opened. -/
def extract (z : Decoder σ) (calls : Calls) (content : Bytes) (extensions : List CString)
    (fuel : Nat) : Option Extraction :=
  if !calls.opens || 2 ^ 31 ≤ content.length then some .failed
  else
    match scanCalls calls.headers content extensions fuel 0 with
    | Option.none => Option.none
    | some Option.none => some .none
    | some (some entry) =>
        if !calls.creates then some .failed
        else
          match extractEntry z calls content fuel entry with
          | Option.none => Option.none
          | some .refused => some .failed
          | some (.accepted io) =>
              some (.kept (calls.tmpDir ++ '/' :: baseName entry.name) io.dst io.rest)

end DarkUI.Minarch.Zip
