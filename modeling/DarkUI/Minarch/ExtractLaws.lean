import DarkUI.Minarch.Extract
import DarkUI.Minarch.ZipLaws

/-! # What an extracted file holds

Copying refuses whatever does not come back whole. Inflating accepts an entry whose size is
used up, also where its stream has not ended by then; what closing the file loses is not
noticed; and the search itself may have come to a header where there is none.
-/

namespace DarkUI.Minarch.Zip

open Text Inflate Orbits

variable {io io' : Io} {size : Nat} {bytes : Bytes}

/-! ## Reads and writes -/

theorem fread_of_not_error (h : io.fread size = (bytes, false, io')) :
    bytes = io.rest.take size ∧ io'.rest = io.rest.drop size ∧ io'.dst = io.dst := by
  unfold Io.fread at h
  split at h
  next hzero =>
    cases h
    simp [hzero]
  next =>
    split at h
    next =>
      cases h
      exact ⟨rfl, rfl, rfl⟩
    next => simp at h

theorem fread_of_length {error : Bool} (h : io.fread size = (bytes, error, io'))
    (hlength : bytes.length = size) :
    size ≤ io.rest.length ∧ bytes = io.rest.take size ∧ io'.rest = io.rest.drop size ∧
      io'.dst = io.dst := by
  cases error with
  | false =>
      obtain ⟨hbytes, hrest, hdst⟩ := fread_of_not_error h
      refine ⟨?_, hbytes, hrest, hdst⟩
      rw [hbytes, List.length_take] at hlength
      omega
  | true =>
      unfold Io.fread at h
      split at h
      next => simp at h
      next =>
        split at h
        next => simp at h
        next =>
          cases h
          simp only [List.length_take] at hlength
          omega

theorem fwrite_of_written (h : io.fwrite bytes = (true, io')) :
    io'.dst.content = io.dst.content ++ bytes ∧ io'.rest = io.rest := by
  unfold Io.fwrite at h
  split at h
  next hnil =>
    cases h
    simp [hnil]
  next hne =>
    cases hwrite : io.writes 0 with
    | complete n =>
        simp only [hwrite, Prod.mk.injEq] at h
        obtain ⟨-, rfl⟩ := h
        exact ⟨io.dst.content_fwrite_complete bytes n, rfl⟩
    | short accepted n =>
        have hlt := io.dst.fwrite_short_lt bytes accepted n hne
        simp only [hwrite, Prod.mk.injEq, decide_eq_true_eq] at h
        omega

/-! ## Copying -/

/-- An entry that was copied is there, and the file has all of it. -/
theorem copy_spec (h : copy io size = .accepted io') :
    size ≤ io.rest.length ∧ io'.rest = io.rest.drop size ∧
      io'.dst.content = io.dst.content ++ io.rest.take size := by
  induction size using Nat.strong_induction_on generalizing io with
  | _ size ih =>
      unfold copy at h
      split at h
      next hzero =>
        cases h
        simp [hzero]
      next hpos =>
        have hsz : 0 < min size chunkSize := lt_min (by omega) (by decide)
        rcases hfread : io.fread (min size chunkSize) with ⟨buffer, error, read⟩
        simp only [hfread] at h
        split at h
        next => cases h
        next hfull =>
          obtain ⟨hthere, hbytes, hread, hsame⟩ := fread_of_length hfread (not_not.mp hfull)
          rcases hfwrite : read.fwrite buffer with ⟨written, wrote⟩
          simp only [hfwrite] at h
          split at h
          next => cases h
          next hwritten =>
            obtain rfl : written = true := by simpa using hwritten
            obtain ⟨hwrite, hkept⟩ := fwrite_of_written hfwrite
            obtain ⟨hsize, hrest, hdst⟩ := ih _ (by omega) h
            rw [hkept, hread, List.length_drop] at hsize
            rw [hkept, hread, List.drop_drop] at hrest
            rw [hwrite, hsame, hkept, hread, hbytes, List.append_assoc, ← List.take_add] at hdst
            have hsum : min size chunkSize + (size - min size chunkSize) = size := by omega
            rw [hsum] at hrest hdst
            exact ⟨by omega, hrest, hdst⟩

/-! ## Inflating -/

variable {σ : Type*} {z : Decoder σ} {format : Format} {laws : Laws z format}
  {fuel : Nat} {s t : σ} {fed input : Bytes} {code : Code}

/-- One call of the inner loop: its output is written, and another call follows if it filled
its room. -/
theorem inflateChunk_step {call : Answer σ} (hcall : z.inflate s input chunkSize = call)
    (h : inflateChunk z (fuel + 1) io s input = some (some (code, t, io'))) :
    (call.code.goesOn ∨ call.code = .streamEnd) ∧ ∃ wrote : Io,
      wrote.dst.content = io.dst.content ++ call.output ∧ wrote.rest = io.rest ∧
        (call.output.length = chunkSize ∧
            inflateChunk z fuel wrote call.state (input.drop call.consumed) =
              some (some (code, t, io')) ∨
          call.output.length ≠ chunkSize ∧ call.code = code ∧ call.state = t ∧ wrote = io') := by
  unfold inflateChunk at h
  simp only [hcall] at h
  have hcode : call.code.goesOn ∨ call.code = .streamEnd := by
    cases hcode : call.code <;> simp [Code.goesOn, hcode] at h ⊢
  refine ⟨hcode, ?_⟩
  rcases hfwrite : io.fwrite call.output with ⟨written, wrote⟩
  simp only [hfwrite] at h
  split at h
  next => cases h
  next => cases h
  next => cases h
  next =>
    split at h
    next => cases h
    next hwritten =>
      obtain rfl : written = true := by simpa using hwritten
      obtain ⟨hcontent, hrest⟩ := fwrite_of_written hfwrite
      refine ⟨wrote, hcontent, hrest, ?_⟩
      split at h
      next hfull => exact .inl ⟨hfull, h⟩
      next hroom =>
        cases h
        exact .inr ⟨hroom, rfl, rfl, rfl⟩

/-- After the end of a stream the inner loop writes nothing. -/
theorem inflateChunk_done (hdone : laws.Done s)
    (h : inflateChunk z fuel io s input = some (some (code, t, io'))) :
    code = .streamEnd ∧ io'.dst.content = io.dst.content ∧ io'.rest = io.rest := by
  cases fuel with
  | zero => cases h
  | succ fuel =>
      obtain ⟨hcode, hout, -⟩ := laws.inflate_done input chunkSize hdone
      obtain ⟨-, wrote, hcontent, hrest, ⟨hfull, -⟩ | ⟨-, rfl, -, rfl⟩⟩ := inflateChunk_step rfl h
      · rw [hout] at hfull
        cases hfull
      · rw [hout, List.append_nil] at hcontent
        exact ⟨hcode, hcontent, hrest⟩

/-- What is known after a piece of the input: it ended the stream, or the stream goes on. -/
def Stopped (laws : Laws z format) (fed input : Bytes) (code : Code) (t : σ) (out : Bytes) :
    Prop :=
  code = .streamEnd ∧ (∃ used ≤ input.length,
      format.decode (fed ++ input.take used) = .ended (fed.length + used) out) ∨
    code ≠ .streamEnd ∧ laws.Seen t (fed ++ input) out ∧ format.decode (fed ++ input) = .more

/-- The inner loop writes what the input at hand decodes to. -/
theorem inflateChunk_spec (hseen : laws.Seen s fed io.dst.content)
    (h : inflateChunk z fuel io s input = some (some (code, t, io'))) :
    io'.rest = io.rest ∧ Stopped laws fed input code t io'.dst.content := by
  induction fuel generalizing io s fed input with
  | zero => cases h
  | succ fuel ih =>
      have hconsumed := laws.consumed_le s input chunkSize
      have hfits := laws.output_le s input chunkSize
      obtain ⟨hgoes | hend, wrote, hcontent, hrest, hcases⟩ := inflateChunk_step rfl h
      · have hnext := laws.seen_inflate input hseen (by decide) hgoes
        rw [← hcontent] at hnext
        obtain ⟨-, hagain⟩ | ⟨hroom, rfl, rfl, rfl⟩ := hcases
        · obtain ⟨hkept, hstopped⟩ := ih hnext hagain
          refine ⟨hkept.trans hrest, ?_⟩
          obtain ⟨hcode, used, hused, hdecode⟩ | ⟨hcode, hmore⟩ := hstopped
          · rw [List.length_drop] at hused
            refine .inl ⟨hcode, (z.inflate s input chunkSize).consumed + used, by omega, ?_⟩
            rw [List.append_assoc, ← List.take_add, List.length_append, List.length_take,
              min_eq_left hconsumed, Nat.add_assoc] at hdecode
            exact hdecode
          · rw [List.append_assoc, List.take_append_drop] at hmore
            exact .inr ⟨hcode, hmore⟩
        · obtain ⟨hall, hmore⟩ := laws.decode_of_room hseen hgoes (by omega)
          rw [hall, List.take_length] at hnext
          refine ⟨hrest, .inr ⟨?_, hnext, hmore⟩⟩
          intro hcode
          simp [hcode, Code.goesOn] at hgoes
      · obtain ⟨hdecode, hdone⟩ := laws.decode_of_streamEnd hseen (by decide) hend
        rw [← hcontent] at hdecode
        obtain ⟨-, hagain⟩ | ⟨hroom, rfl, rfl, rfl⟩ := hcases
        · obtain ⟨hcode, hsame, hkept⟩ := inflateChunk_done hdone hagain
          rw [← hsame] at hdecode
          exact ⟨hkept.trans hrest, .inl ⟨hcode, _, hconsumed, hdecode⟩⟩
        · exact ⟨hrest, .inl ⟨hend, _, hconsumed, hdecode⟩⟩

/-- The end of the chunk that a byte is in. -/
def chunkEnd (used : Nat) : Nat := chunkSize * ((used + chunkSize - 1) / chunkSize)

theorem chunkEnd_add {start used : Nat} (haligned : chunkSize ∣ start) (hpos : 0 < used)
    (hused : used ≤ chunkSize) : chunkEnd (start + used) = start + chunkSize := by
  obtain ⟨k, rfl⟩ := haligned
  have hchunk : 0 < chunkSize := by decide
  have hone : (used + chunkSize - 1) / chunkSize = 1 :=
    Nat.div_eq_of_lt_le (by omega) (by omega)
  unfold chunkEnd
  rw [show chunkSize * k + used + chunkSize - 1 = used + chunkSize - 1 + chunkSize * k by omega,
    Nat.add_mul_div_left _ _ hchunk, hone, Nat.mul_add, Nat.mul_one, Nat.add_comm]

/-- What an accepted entry decodes to: the file is the content of a stream that ended, with
the chunks it is in read, or the stream had not ended when the size was used up. -/
def Inflated (format : Format) (data : Bytes) (size : Nat) (io : Io) : Prop :=
  (∃ used, format.decode (data.take size) = .ended used io.dst.content ∧
      io.rest = data.drop (min size (chunkEnd used))) ∨
    format.decode (data.take size) = .more

variable {data : Bytes} {start : Nat} {ret : Code}

theorem accept_eq_accepted (h : accept size ret io = .accepted io') :
    io = io' ∧ (size = 0 ∨ ret = .streamEnd) := by
  unfold accept at h
  split at h
  next haccept =>
    cases h
    exact ⟨rfl, haccept⟩
  next => cases h

/-- A stream that ends in the chunk that was read leaves the file at the end of that chunk. -/
theorem ended_in_chunk {input content rest : Bytes} {used : Nat}
    (hmore : format.decode (data.take start) = .more) (haligned : chunkSize ∣ start)
    (hinput : input = (data.drop start).take (min size chunkSize)) (hne : input ≠ [])
    (hused : used ≤ input.length)
    (hdecode : format.decode (data.take start ++ input.take used) =
      .ended ((data.take start).length + used) content)
    (hrest : rest = data.drop (start + min size chunkSize)) :
    ∃ used, format.decode (data.take (start + size)) = .ended used content ∧
      rest = data.drop (min (start + size) (chunkEnd used)) := by
  have hbounds : used ≤ min size chunkSize ∧ start < data.length := by
    have hpos := List.length_pos_iff.mpr hne
    rw [hinput, List.length_take, List.length_drop] at hused hpos
    omega
  have hpos : 0 < used := by
    refine Nat.pos_of_ne_zero fun hzero => ?_
    rw [hzero, List.take_zero, List.append_nil, hmore] at hdecode
    cases hdecode
  rw [hinput, List.take_take, min_eq_left hbounds.1, ← List.take_add, List.length_take,
    min_eq_left hbounds.2.le] at hdecode
  have hwhole := format.decode_of_take hdecode (show start + used ≤ start + size by omega)
  refine ⟨start + used, hwhole, ?_⟩
  rw [hrest, chunkEnd_add haligned hpos (by omega)]
  congr 1
  omega

theorem inflateLoop_spec (laws : Laws z format) (hrest : io.rest = data.drop start)
    (hseen : laws.Seen s (data.take start) io.dst.content)
    (hmore : format.decode (data.take start) = .more) (haligned : chunkSize ∣ start)
    (hret : ret ≠ .streamEnd) (h : inflateLoop z fuel io s ret size = some (.accepted io')) :
    Inflated format data (start + size) io' := by
  induction fuel generalizing io s ret size start with
  | zero => cases h
  | succ fuel ih =>
      unfold inflateLoop at h
      rcases hfread : io.fread (min size chunkSize) with ⟨input, error, read⟩
      simp only [hfread] at h
      split at h
      next => cases h
      next herror =>
        obtain rfl : error = false := by simpa using herror
        obtain ⟨hinput, hread, hsame⟩ := fread_of_not_error hfread
        rw [hrest] at hinput
        rw [hrest, List.drop_drop] at hread
        split at h
        next =>
          obtain ⟨-, hzero | hend⟩ := accept_eq_accepted (Option.some.inj h)
          · rw [hzero]
            exact .inr hmore
          · exact absurd hend hret
        next hne =>
          split at h
          next => cases h
          next => cases h
          next ret' t wrote hchunk =>
            rw [← hsame] at hseen
            obtain ⟨hkept, hstopped⟩ := inflateChunk_spec hseen hchunk
            rw [hread] at hkept
            obtain ⟨rfl, used, hused, hdecode⟩ | ⟨hgoes, hnext, hmore'⟩ := hstopped
            · -- The stream ends in this chunk, and with it the loop.
              rw [if_neg (by simp)] at h
              obtain ⟨rfl, -⟩ := accept_eq_accepted (Option.some.inj h)
              exact .inl (ended_in_chunk hmore haligned hinput hne hused hdecode hkept)
            · rw [hinput, ← List.take_add] at hnext hmore'
              split at h
              next hagain =>
                -- Only a whole chunk leaves more to read, so the next one starts aligned.
                have hall : min size chunkSize = chunkSize := by omega
                have hnextAligned : chunkSize ∣ start + min size chunkSize := by
                  rw [hall]
                  exact Nat.dvd_add haligned (dvd_refl _)
                have hloop := ih hkept hnext hmore' hnextAligned hgoes h
                rwa [Nat.add_assoc, Nat.add_sub_cancel' (min_le_left _ _)] at hloop
              next hstop =>
                have hused : size - min size chunkSize = 0 :=
                  by_contra fun hleft => hstop ⟨hleft, hgoes⟩
                have hall : min size chunkSize = size := by omega
                rw [hall] at hmore'
                exact .inr hmore'

theorem inflate_spec {initializes : Bool} (laws : Laws z format)
    (h : inflate z initializes fuel io size = some (.accepted io')) (hdst : io.dst = .opened) :
    Inflated format io.rest size io' := by
  unfold inflate at h
  split at h
  next =>
    have hstart : io.rest = io.rest.drop 0 := rfl
    have hloop := inflateLoop_spec laws hstart (by rw [hdst]; exact laws.seen_init)
      format.decode_nil ⟨0, rfl⟩ (by simp) h
    rwa [Nat.zero_add] at hloop
  next => cases h

/-! ## The headers -/

variable {content : Bytes} {extensions : List CString} {p q : Nat} {entry found : Entry}

/-- The signature of a local header. -/
def IsLocal (content : Bytes) (p : Nat) : Prop := readAt content p 4 = [0x50, 0x4B, 3, 4]

instance : Decidable (IsLocal content p) := inferInstanceAs (Decidable (_ = _))

/-- The first local entry from a header on whose name is supported, going by the sizes as
they are written. -/
inductive First (content : Bytes) (extensions : List CString) : Nat → Entry → Prop
  | here {p : Nat} {entry : Entry} : IsLocal content p → entryAt content p = some entry →
      isSupported extensions entry.name = some true → First content extensions p entry
  | later {p : Nat} {entry found : Entry} : IsLocal content p → entryAt content p = some entry →
      isSupported extensions entry.name = some false →
      First content extensions (entry.data + entry.compressedSize) found →
      First content extensions p found

/-- Every header that the search comes to is a local one, and a `long` can hold the size of
each entry that is passed over. -/
def Straight (content : Bytes) (extensions : List CString) (p : Nat) : Prop :=
  ∀ q entry, Reaches (following content extensions) p q → entryAt content q = some entry →
    IsLocal content q ∧
      (isSupported extensions entry.name = some false → entry.compressedSize < 2 ^ 31)

/-- The entry that the search comes to. -/
def Found (content : Bytes) (extensions : List CString) (entry : Entry) : Prop :=
  ∃ p, Reaches (following content extensions) 0 p ∧ visit content extensions p = .found entry

theorem visit_eq_found (h : visit content extensions p = .found entry) :
    entryAt content p = some entry ∧ isSupported extensions entry.name = some true := by
  unfold visit at h
  split at h
  next => cases h
  next found hentry =>
    split at h
    next => cases h
    next hname =>
      cases h
      exact ⟨hentry, hname⟩
    next => cases h

theorem First.le_length (h : First content extensions p entry) :
    p + headerSize ≤ content.length := by
  cases h with
  | here _ hentry _ => exact (data_of_entryAt hentry).2
  | later _ hentry _ _ => exact (data_of_entryAt hentry).2

theorem next_of_lt (hsize : entry.compressedSize < 2 ^ 31) :
    entry.next = entry.data + entry.compressedSize := by
  unfold Entry.next
  split
  next hzero => rw [hzero, Nat.add_zero]
  next =>
    rw [toLong_of_lt hsize, seekCur, if_pos (by omega)]
    omega

/-- The search comes to one entry at most. -/
theorem Found.unique (h : Found content extensions entry)
    (hother : Found content extensions found) :
    entry = found := by
  obtain ⟨p, hreach, hvisit⟩ := h
  obtain ⟨q, hreach', hvisit'⟩ := hother
  obtain rfl := eq_of_reaches hreach (by simp [following, hvisit]) hreach'
    (by simp [following, hvisit'])
  exact Visit.found.inj (hvisit.symm.trans hvisit')

theorem straight_of_leads (hentry : entryAt content p = some entry)
    (hname : isSupported extensions entry.name = some false)
    (hleads : Leads (following content extensions) p q) :
    Straight content extensions p ↔
      IsLocal content p ∧ entry.compressedSize < 2 ^ 31 ∧ Straight content extensions q := by
  constructor
  · intro h
    have hown := h p entry .refl hentry
    exact ⟨hown.1, hown.2 hname, fun r e hreach => h r e (.head hleads hreach)⟩
  · rintro ⟨hlocal, hsize, h⟩ r e hreach he
    obtain rfl | ⟨m, hfirst, hrest⟩ := Relation.ReflTransGen.cases_head hreach
    · obtain rfl : entry = e := Option.some.inj (hentry.symm.trans he)
      exact ⟨hlocal, fun _ => hsize⟩
    · obtain rfl : q = m := Option.some.inj (hleads.symm.trans hfirst)
      exact h r e hrest he

theorem straight_of_found (hfound : visit content extensions p = .found found) :
    Straight content extensions p ↔ IsLocal content p := by
  obtain ⟨hentry, hname⟩ := visit_eq_found hfound
  constructor
  · exact fun h => (h p found .refl hentry).1
  · intro hlocal q entry hreach hentryAt
    obtain rfl | ⟨m, hfirst, -⟩ := Relation.ReflTransGen.cases_head hreach
    · obtain rfl : found = entry := Option.some.inj (hentry.symm.trans hentryAt)
      exact ⟨hlocal, fun hother => by rw [hname] at hother; cases hother⟩
    · rw [leads_iff, hfound] at hfirst
      cases hfirst

/-- The entry that the search comes to is the first one just when its headers are. -/
theorem first_iff (hlength : content.length < 2 ^ 31)
    (hreach : Reaches (following content extensions) p q)
    (hfound : visit content extensions q = .found found) :
    First content extensions p entry ↔ entry = found ∧ Straight content extensions p := by
  obtain ⟨hentryAt, hsupported⟩ := visit_eq_found hfound
  -- along the entries that are passed over, up to the one that is found
  induction hreach using Relation.ReflTransGen.head_induction_on with
  | refl =>
      rw [straight_of_found hfound]
      constructor
      · intro h
        cases h with
        | here hlocal hentry _ =>
            obtain rfl : found = entry := Option.some.inj (hentryAt.symm.trans hentry)
            exact ⟨rfl, hlocal⟩
        | later _ hentry hname _ =>
            obtain rfl := Option.some.inj (hentryAt.symm.trans hentry)
            rw [hsupported] at hname
            cases hname
      · rintro ⟨rfl, h⟩
        exact .here h hentryAt hsupported
  | head hleads _ ih =>
      rename_i a b
      obtain ⟨passed, hpassed, hname, hnext⟩ := visit_eq_skip (leads_iff.mp hleads)
      rw [straight_of_leads hpassed hname hleads]
      constructor
      · intro h
        cases h with
        | here _ hentry htrue =>
            obtain rfl := Option.some.inj (hpassed.symm.trans hentry)
            rw [hname] at htrue
            cases htrue
        | later hlocal hentry _ hlater =>
            obtain rfl := Option.some.inj (hpassed.symm.trans hentry)
            -- an entry behind the passed one is in the file, which is short enough
            have hsize : passed.compressedSize < 2 ^ 31 := by
              have hinside := hlater.le_length
              omega
            rw [← next_of_lt hsize, hnext] at hlater
            obtain ⟨hsame, hstraight⟩ := ih.mp hlater
            exact ⟨hsame, hlocal, hsize, hstraight⟩
      · rintro ⟨rfl, hlocal, hsize, h⟩
        refine .later hlocal hpassed hname ?_
        rw [← next_of_lt hsize, hnext]
        exact ih.mpr ⟨rfl, h⟩

theorem found_of_scanCalls {headers : Nat → Bool}
    (h : scanCalls headers content extensions fuel p = some (some entry)) :
    ∃ q, Reaches (following content extensions) p q ∧
      visit content extensions q = .found entry := by
  induction fuel generalizing headers p with
  | zero => cases h
  | succ fuel ih =>
      unfold scanCalls at h
      split at h
      next => cases h
      next =>
        split at h
        next => cases h
        next hvisit =>
          cases h
          exact ⟨p, .refl, hvisit⟩
        next => cases h
        next hvisit =>
          obtain ⟨q, hreach, hfound⟩ := ih h
          exact ⟨q, .head (leads_iff.mpr hvisit) hreach, hfound⟩

/-! ## The file that is kept -/

/-- The bytes of an entry, as many as are there. -/
def bytesOf (content : Bytes) (entry : Entry) : Bytes :=
  (content.drop entry.data).take entry.compressedSize

/-- All bytes of an entry are there. -/
def Complete (content : Bytes) (entry : Entry) : Prop :=
  entry.compressedSize ≤ (content.drop entry.data).length

/-- What the whole content of an entry is. -/
def Decodes (format : Format) (content : Bytes) (entry : Entry) (file : Bytes) : Prop :=
  entry.method = 0 ∧ file = bytesOf content entry ∨
    entry.method = 8 ∧ ∃ used, format.decode (bytesOf content entry) = .ended used file

/-- A file is the whole content of the first local entry with a supported name, and all bytes
of the entry were read. -/
def Whole (format : Format) (content : Bytes) (extensions : List CString) (file rest : Bytes) :
    Prop :=
  ∃ entry, First content extensions 0 entry ∧ Complete content entry ∧
    rest = content.drop (entry.data + entry.compressedSize) ∧ Decodes format content entry file

/-- An entry that is inflated is there, has a stream that ends, and its size is used up by the
chunks that the stream is in. -/
def Inflates (format : Format) (content : Bytes) (entry : Entry) : Prop :=
  entry.method = 8 → Complete content entry ∧ ∃ used file,
    format.decode (bytesOf content entry) = .ended used file ∧
      entry.compressedSize ≤ chunkEnd used

theorem extract_eq_kept {calls : Calls} {tmpPath : CString} {dst : Stdio.Stream UInt8}
    {rest : Bytes} (h : extract z calls content extensions fuel = some (.kept tmpPath dst rest)) :
    content.length < 2 ^ 31 ∧ ∃ entry, Found content extensions entry ∧ ∃ io,
      extractEntry z calls content fuel entry = some (.accepted io) ∧ io.dst = dst ∧
        io.rest = rest := by
  unfold extract at h
  split at h
  next => cases h
  next hopens =>
    have hlength : content.length < 2 ^ 31 := by
      simp only [Bool.or_eq_true, decide_eq_true_eq, not_or] at hopens
      omega
    split at h
    next => cases h
    next => cases h
    next entry hscan =>
      split at h
      next => cases h
      next =>
        split at h
        next => cases h
        next => cases h
        next io hextract =>
          cases h
          exact ⟨hlength, entry, found_of_scanCalls hscan, io, hextract, rfl, rfl⟩

theorem drop_min_iff {content : Bytes} {a m n : Nat} (h : n ≤ (content.drop a).length) :
    (content.drop a).drop (min n m) = content.drop (a + n) ↔ n ≤ m := by
  rw [List.drop_drop]
  constructor
  · intro heq
    have hlengths := congrArg List.length heq
    simp only [List.length_drop] at h hlengths
    omega
  · intro hle
    rw [min_eq_left hle]

/-- The file of an entry that was accepted is its whole content just when it was not inflated
too early. -/
theorem decodes_iff {calls : Calls} (file : Bytes) (laws : Laws z format)
    (h : extractEntry z calls content fuel entry = some (.accepted io)) :
    (Complete content entry ∧ io.rest = content.drop (entry.data + entry.compressedSize) ∧
        Decodes format content entry file) ↔
      Inflates format content entry ∧ file = io.dst.content := by
  unfold extractEntry at h
  split at h
  next hmethod =>
    obtain ⟨hsize, hrest, hdst⟩ := copy_spec (Option.some.inj h)
    rw [List.drop_drop] at hrest
    simp only [Stdio.Stream.content_opened, List.nil_append] at hdst
    have hinflates : Inflates format content entry := fun h8 => by omega
    rw [hdst]
    constructor
    · rintro ⟨-, -, ⟨-, hfile⟩ | ⟨h8, -⟩⟩
      · exact ⟨hinflates, hfile⟩
      · omega
    · rintro ⟨-, hfile⟩
      exact ⟨hsize, hrest, .inl ⟨hmethod, hfile⟩⟩
  next hmethod =>
    -- the stream has ended, or the bytes ran out before it did
    obtain ⟨used, hdecode, hrest⟩ | hmore := inflate_spec laws h rfl
    · change format.decode (bytesOf content entry) = _ at hdecode
      dsimp only at hrest
      constructor
      · rintro ⟨hcomplete, hread, ⟨h0, -⟩ | ⟨-, used', hfile⟩⟩
        · omega
        · rw [hdecode, Decoded.ended.injEq] at hfile
          rw [hrest, drop_min_iff hcomplete] at hread
          exact ⟨fun _ => ⟨hcomplete, used, _, hdecode, hread⟩, hfile.2.symm⟩
      · rintro ⟨hinflates, rfl⟩
        obtain ⟨hcomplete, used', content', hdecode', hread⟩ := hinflates hmethod
        obtain ⟨rfl, -⟩ := Decoded.ended.inj (hdecode.symm.trans hdecode')
        rw [hrest, drop_min_iff hcomplete]
        exact ⟨hcomplete, hread, .inr ⟨hmethod, used, hdecode⟩⟩
    · change format.decode (bytesOf content entry) = _ at hmore
      constructor
      · rintro ⟨-, -, ⟨h0, -⟩ | ⟨-, used, hdecode⟩⟩
        · omega
        · rw [hmore] at hdecode
          cases hdecode
      · rintro ⟨hinflates, -⟩
        obtain ⟨-, used, file, hdecode, -⟩ := hinflates hmethod
        rw [hmore] at hdecode
        cases hdecode
  next => cases h

/-- A file that is kept is the whole content of the first entry to be opened just when the
search came to local headers only and passed over none that a `long` cannot hold, the entry
is inflated to the end of its stream in the chunks of its size, and closing the file writes
back all that is still buffered. -/
theorem extract_whole_iff (laws : Laws z format) {calls : Calls} {tmpPath : CString}
    {dst : Stdio.Stream UInt8} {rest : Bytes}
    (h : extract z calls content extensions fuel = some (.kept tmpPath dst rest)) :
    Whole format content extensions (dst.fclose calls.close) rest ↔
      Straight content extensions 0 ∧
        (∀ entry, Found content extensions entry → Inflates format content entry) ∧
        ∀ k, calls.close = .failed k → dst.buffer.length ≤ k := by
  obtain ⟨hlength, entry, hfound, io, hextract, rfl, rfl⟩ := extract_eq_kept h
  obtain ⟨p, hreach, hvisit⟩ := hfound
  have hdecodes := decodes_iff (io.dst.fclose calls.close) laws hextract
  rw [io.dst.fclose_eq_content_iff] at hdecodes
  constructor
  · rintro ⟨first, hfirst, hwhole⟩
    obtain ⟨rfl, hstraight⟩ := (first_iff hlength hreach hvisit).mp hfirst
    obtain ⟨hinflates, hclose⟩ := hdecodes.mp hwhole
    refine ⟨hstraight, fun other hother => ?_, hclose⟩
    rwa [hother.unique ⟨p, hreach, hvisit⟩]
  · rintro ⟨hstraight, hinflates, hclose⟩
    exact ⟨entry, (first_iff hlength hreach hvisit).mpr ⟨rfl, hstraight⟩,
      hdecodes.mpr ⟨hinflates entry ⟨p, hreach, hvisit⟩, hclose⟩⟩

/-! ## A stream of one stored byte -/

/-- The header of a last block that stores one byte. -/
def storedHeader : Bytes := [1, 1, 0, 0xFE, 0xFF]

def decodeStored (bytes : Bytes) : Decoded :=
  match bytes.drop 5 with
  | [] => if bytes <+: storedHeader then .more else .corrupt
  | b :: _ => if bytes.take 5 = storedHeader then .ended 6 [b] else .corrupt

def storedFormat : Format where
  decode := decodeStored
  decode_nil := by decide
  decode_append {bytes used content} following h := by
    unfold decodeStored at h ⊢
    split at h
    next => split at h <;> cases h
    next b rest hdrop =>
      have hlength := congrArg List.length hdrop
      simp only [List.length_drop, List.length_cons] at hlength
      rw [List.drop_append_of_le_length (by omega), List.take_append_of_le_length (by omega), hdrop]
      exact h

/-- It remembers what was seen of the stream. -/
def storedDecoder : Decoder Bytes where
  init := []
  inflate s input room :=
    let seen := (s ++ input).take 6
    match decodeStored seen with
    | .ended _ content =>
        ⟨.streamEnd, seen.length - s.length, if s.length = 6 then [] else content.take room, seen⟩
    | .more => ⟨if input = [] then .bufError else .ok, seen.length - s.length, [], seen⟩
    | .corrupt => ⟨.dataError, 0, [], s⟩

theorem length_of_more {bytes : Bytes} (h : decodeStored bytes = .more) : bytes.length ≤ 5 := by
  unfold decodeStored at h
  split at h
  next hdrop => exact List.drop_eq_nil_iff.mp hdrop
  next => split at h <;> cases h

theorem length_of_ended {bytes content : Bytes} {used : Nat}
    (h : decodeStored bytes = .ended used content) :
    used = 6 ∧ 5 < bytes.length ∧ content.length = 1 := by
  unfold decodeStored at h
  split at h
  next => split at h <;> cases h
  next b rest hdrop =>
    have hlength := congrArg List.length hdrop
    simp only [List.length_drop, List.length_cons] at hlength
    split at h
    next =>
      cases h
      exact ⟨rfl, by omega, rfl⟩
    next => cases h

/-- A call within the stream takes the bytes up to its end. -/
theorem storedDecoder_seen {s : Bytes} (input : Bytes) (hlength : s.length ≤ 5) :
    (s ++ input).take 6 = s ++ input.take (((s ++ input).take 6).length - s.length) := by
  rw [List.take_append, List.take_of_length_le (by omega), List.length_append,
    Nat.add_sub_cancel_left, List.length_take, List.append_cancel_left_eq, List.take_eq_take_iff]
  omega

def storedLaws : Laws storedDecoder storedFormat where
  Seen s fed out := s = fed ∧ out = [] ∧ decodeStored fed = .more
  Done s := s.length = 6 ∧ ∃ used content, decodeStored s = .ended used content
  seen_init := ⟨rfl, rfl, by decide⟩
  seen_inflate {s fed out} input room := by
    rintro ⟨rfl, rfl, hmore⟩ hroom hgoes
    have hseen := storedDecoder_seen input (length_of_more hmore)
    dsimp only [storedDecoder] at hgoes ⊢
    split at hgoes
    next => cases hgoes
    next hnext => exact ⟨hseen, rfl, by rw [← hseen]; exact hnext⟩
    next => cases hgoes
  decode_of_room := by
    rintro s fed out input room ⟨rfl, rfl, hmore⟩ hgoes -
    have hseen := storedDecoder_seen input (length_of_more hmore)
    dsimp only [storedDecoder] at hgoes ⊢
    split at hgoes
    next => cases hgoes
    next hnext =>
      have hshort := length_of_more hnext
      rw [List.length_take] at hshort
      have hwhole : (s ++ input).take 6 = s ++ input := List.take_of_length_le (by omega)
      rw [hwhole] at hnext ⊢
      exact ⟨by simp, hnext⟩
    next => cases hgoes
  decode_of_streamEnd := by
    rintro s fed out input room ⟨rfl, rfl, hmore⟩ hroom hcode
    have hlength := length_of_more hmore
    have hseen := storedDecoder_seen input hlength
    dsimp only [storedDecoder] at hcode ⊢
    split at hcode
    next used content hended =>
      obtain ⟨rfl, hlong, hone⟩ := length_of_ended hended
      have hsix : ((s ++ input).take 6).length = 6 := by
        rw [List.length_take] at hlong ⊢
        omega
      generalize (s ++ input).take 6 = seen at hseen hended hsix ⊢
      rw [← hseen, if_neg (by omega), List.take_of_length_le (by omega), List.nil_append, hsix,
        Nat.add_sub_of_le (by omega)]
      exact ⟨hended, rfl, _, _, hended⟩
    next => split at hcode <;> cases hcode
    next => cases hcode
  consumed_le s input room := by
    dsimp only [storedDecoder]
    have hlength : ((s ++ input).take 6).length - s.length ≤ input.length := by
      rw [List.length_take, List.length_append]
      omega
    split
    next => exact hlength
    next => exact hlength
    next => exact Nat.zero_le _
  output_le s input room := by
    dsimp only [storedDecoder]
    split
    next =>
      dsimp only
      split
      next => exact Nat.zero_le _
      next => exact List.length_take_le _ _
    next => exact Nat.zero_le _
    next => exact Nat.zero_le _
  inflate_done := by
    rintro s input room ⟨hlength, used, content, hended⟩
    have hsame : (s ++ input).take 6 = s := by
      rw [List.take_append_of_le_length (by omega), List.take_of_length_le (by omega)]
    dsimp only [storedDecoder]
    rw [hsame, hended]
    exact ⟨rfl, if_pos hlength, hlength, used, content, hended⟩

/-- An archive with one entry that is inflated, of 6 bytes. -/
def inflatedHeader : Bytes :=
  [0x50, 0x4B, 3, 4, 20, 0, 0, 0, 8, 0, 0, 0, 0, 0, 0, 0, 0, 0, 6, 0, 0, 0, 1, 0, 0, 0, 4, 0, 0, 0,
    97, 46, 103, 98]

def inflatedArchive : Bytes := inflatedHeader ++ [1, 1, 0, 0xFE, 0xFF, 65]

/-- The same archive without its last three bytes. -/
def truncatedArchive : Bytes := inflatedHeader ++ [1, 1, 0]

/-- Every call succeeds. -/
def wholeCalls : Calls where
  opens := true
  headers _ := true
  tmpDir := "/tmp/minarch-abcdef".toList
  creates := true
  initializes := true
  reads _ := .complete
  writes _ := .complete 0
  close := .flushed

theorem extract_whole_inflated :
    Whole storedFormat inflatedArchive ["gb".toList]
      ((⟨[], [65]⟩ : Stdio.Stream UInt8).fclose .flushed) [] := by
  have hkept : extract storedDecoder wholeCalls inflatedArchive ["gb".toList] 2 =
      some (.kept "/tmp/minarch-abcdef/a.gb".toList ⟨[], [65]⟩ []) := by decide +kernel
  have hvisit : visit inflatedArchive ["gb".toList] 0 = .found ⟨"a.gb".toList, 8, 6, 34⟩ := by
    decide +kernel
  refine (extract_whole_iff storedLaws hkept).mpr
    ⟨(straight_of_found hvisit).mpr (by decide), fun entry hentry => ?_, nofun⟩
  rw [hentry.unique ⟨0, .refl, hvisit⟩]
  exact fun _ => ⟨show 6 ≤ _ by decide, 6, [65], by decide +kernel, by decide⟩

/-- The entry of the truncated archive is kept as an empty file. -/
theorem truncated_kept :
    ∃ tmpPath dst rest, extract storedDecoder wholeCalls truncatedArchive ["gb".toList] 2 =
        some (.kept tmpPath dst rest) ∧
      ¬ Whole storedFormat truncatedArchive ["gb".toList] (dst.fclose wholeCalls.close) rest := by
  have hkept : extract storedDecoder wholeCalls truncatedArchive ["gb".toList] 2 =
      some (.kept "/tmp/minarch-abcdef/a.gb".toList ⟨[], []⟩ []) := by decide +kernel
  have hvisit : visit truncatedArchive ["gb".toList] 0 = .found ⟨"a.gb".toList, 8, 6, 34⟩ := by
    decide +kernel
  refine ⟨_, _, _, hkept, ?_⟩
  rintro ⟨entry, hfirst, hcomplete, -, -⟩
  obtain ⟨rfl, -⟩ := (first_iff (by decide) .refl hvisit).mp hfirst
  exact absurd hcomplete (show ¬ 6 ≤ _ by decide)

end DarkUI.Minarch.Zip
