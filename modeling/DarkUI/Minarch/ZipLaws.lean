import DarkUI.Foundation.Orbits
import DarkUI.Minarch.Zip

/-! # When the search of an archive ends

Headers are passed over for good only if the search does not come back to one. A size of
2^31 or more is a step back, and a chain of headers with such a size can lead anywhere.
-/

namespace DarkUI.Minarch.Zip

open Text Orbits

variable {content : Bytes} {extensions : List CString} {p q : Nat} {entry : Entry}

theorem toLong_of_lt {n : Nat} (h : n < 2 ^ 31) : toLong n = n := by
  unfold toLong
  rw [BitVec.toInt_eq_toNat_of_lt (by rw [BitVec.toNat_ofNat]; omega), BitVec.toNat_ofNat,
    Nat.mod_eq_of_lt (by omega)]

theorem data_of_entryAt (h : entryAt content p = some entry) : p + headerSize ≤ entry.data ∧
    p + headerSize ≤ content.length := by
  unfold entryAt at h
  dsimp only at h
  split at h
  next => cases h
  next hheader =>
    have hlength : p + headerSize ≤ content.length := by
      have hfull := not_not.mp hheader
      simp only [readAt, List.length_take, List.length_drop, headerSize] at hfull ⊢
      omega
    split at h
    next => cases h
    next =>
      split at h
      next => cases h
      next =>
        split at h
        next => cases h
        next =>
          cases h
          refine ⟨?_, hlength⟩
          dsimp only
          omega

/-- Entries with sizes that a `long` can hold are passed over forwards. -/
theorem lt_next_of_entryAt (h : entryAt content p = some entry)
    (hsize : entry.compressedSize < 2 ^ 31) : p < entry.next := by
  have hdata := (data_of_entryAt h).1
  have hheader : headerSize = 30 := rfl
  unfold Entry.next
  split
  next => omega
  next =>
    rw [toLong_of_lt hsize, seekCur, if_pos (by omega)]
    omega

/-- The header that the search goes on to after one. -/
def following (content : Bytes) (extensions : List CString) (p : Nat) : Option Nat :=
  match visit content extensions p with
  | .skip q => some q
  | _ => none

theorem leads_iff : Leads (following content extensions) p q ↔
    visit content extensions p = .skip q := by
  unfold Leads following
  cases visit content extensions p <;> simp

theorem visit_eq_skip (h : visit content extensions p = .skip q) :
    ∃ entry, entryAt content p = some entry ∧ isSupported extensions entry.name = some false ∧
      entry.next = q := by
  unfold visit at h
  split at h
  next => cases h
  next entry hentry =>
    split at h
    next => cases h
    next => cases h
    next hname =>
      cases h
      exact ⟨entry, hentry, hname, rfl⟩

/-- The search stops if the chain of headers does and no array is overrun on the way. -/
theorem exists_scan_iff (p : Nat) :
    (∃ fuel result, scan content extensions fuel p = some result) ↔
      Ends (following content extensions) p ∧
        ∀ q, Reaches (following content extensions) p q →
          visit content extensions q ≠ .overrun := by
  constructor
  · rintro ⟨fuel, result, hscan⟩
    induction fuel generalizing p with
    | zero => cases hscan
    | succ fuel ih =>
        unfold scan at hscan
        -- an entry that nothing follows is the last one to be reached
        have hhalt (hnone : following content extensions p = none)
            (hrun : visit content extensions p ≠ .overrun) :
            Ends (following content extensions) p ∧
              ∀ q, Reaches (following content extensions) p q →
                visit content extensions q ≠ .overrun := by
          refine ⟨⟨1, by simpa [after] using hnone⟩, fun q hreach => ?_⟩
          obtain rfl | ⟨r, hfirst, -⟩ := Relation.ReflTransGen.cases_head hreach
          · exact hrun
          · exact absurd (hnone.symm.trans hfirst) (by simp)
        split at hscan
        next hvisit => exact hhalt (by simp [following, hvisit]) (by simp [hvisit])
        next hvisit => exact hhalt (by simp [following, hvisit]) (by simp [hvisit])
        next => cases hscan
        next next hvisit =>
          obtain ⟨⟨n, hn⟩, hrun⟩ := ih next hscan
          have hleads := leads_iff.mpr hvisit
          refine ⟨⟨n + 1, (after_of_leads hleads n).trans hn⟩, fun q hreach => ?_⟩
          obtain rfl | ⟨r, hfirst, hrest⟩ := Relation.ReflTransGen.cases_head hreach
          · simp [hvisit]
          · have hsame : next = r := Option.some.inj (hleads.symm.trans hfirst)
            exact hrun q (hsame ▸ hrest)
  · rintro ⟨⟨n, hn⟩, hrun⟩
    -- the fuel is the number of entries that are passed over
    induction n generalizing p with
    | zero => cases hn
    | succ n ih =>
        cases hvisit : visit content extensions p with
        | leave => exact ⟨1, none, by simp [scan, hvisit]⟩
        | found entry => exact ⟨1, some entry, by simp [scan, hvisit]⟩
        | overrun => exact absurd hvisit (hrun p .refl)
        | skip next =>
            have hleads := leads_iff.mpr hvisit
            rw [after_of_leads hleads] at hn
            obtain ⟨fuel, result, hscan⟩ := ih next
              (fun q hreach => hrun q (.head hleads hreach)) hn
            exact ⟨fuel + 1, result, by simpa [scan, hvisit] using hscan⟩

theorem finite_headers : {p : Nat | p ≤ content.length}.Finite := Set.finite_le_nat _

theorem exists_result_iff (content : Bytes) (extensions : List CString) :
    (∃ fuel result, scan content extensions fuel 0 = some result) ↔
      ∀ p, Reaches (following content extensions) 0 p →
        visit content extensions p ≠ .overrun ∧
          ¬ Relation.TransGen (Leads (following content extensions)) p p := by
  have hends := @ends_iff _ (following content extensions) 0 {p | p ≤ content.length}
    finite_headers fun {p q} hleads => by
      obtain ⟨entry, hentry, -, -⟩ := visit_eq_skip (leads_iff.mp hleads)
      have hlength := (data_of_entryAt hentry).2
      have hheader : headerSize = 30 := rfl
      exact show p ≤ content.length by omega
  rw [exists_scan_iff, hends]
  constructor
  · rintro ⟨hcycle, hrun⟩ p hreach
    exact ⟨hrun p hreach, hcycle p hreach⟩
  · intro h
    exact ⟨fun p hreach => (h p hreach).2, fun p hreach => (h p hreach).1⟩

theorem isSupported_ne_none (hextensions : ∀ ext ∈ extensions, ext.length < 7) (name : CString) :
    isSupported extensions name ≠ none := by
  induction extensions with
  | nil => simp [isSupported]
  | cons ext rest ih =>
      have hext := hextensions ext List.mem_cons_self
      unfold isSupported
      rw [if_neg (by omega)]
      split
      next => simp
      next => exact ih fun ext hmem => hextensions ext (List.mem_cons_of_mem _ hmem)

theorem lt_of_leads {start : Nat}
    (hsizes : ∀ p, Reaches (following content extensions) start p → ∀ entry,
      entryAt content p = some entry → entry.compressedSize < 2 ^ 31)
    (hreach : Reaches (following content extensions) start p)
    (hleads : Leads (following content extensions) p q) : p < q := by
  obtain ⟨entry, hentry, -, rfl⟩ := visit_eq_skip (leads_iff.mp hleads)
  exact lt_next_of_entryAt hentry (hsizes p hreach entry hentry)

/-- With extensions that fit and sizes that a `long` can hold the search ends. -/
theorem scan_ends_of_sizes (hextensions : ∀ ext ∈ extensions, ext.length < 7)
    (hsizes : ∀ p, Reaches (following content extensions) 0 p → ∀ entry,
      entryAt content p = some entry → entry.compressedSize < 2 ^ 31) :
    ∃ fuel result, scan content extensions fuel 0 = some result := by
  rw [exists_result_iff]
  intro p hreach
  constructor
  · intro hvisit
    unfold visit at hvisit
    split at hvisit
    next => cases hvisit
    next entry hentry =>
      split at hvisit
      next hname => exact isSupported_ne_none hextensions entry.name hname
      next => cases hvisit
      next => cases hvisit
  · have hforward {q : Nat}
        (hchain : Relation.TransGen (Leads (following content extensions)) p q) : p < q := by
      induction hchain with
      | single hleads => exact lt_of_leads hsizes hreach hleads
      | tail hchain hleads ih =>
          exact ih.trans (lt_of_leads hsizes (hreach.trans hchain.to_reflTransGen) hleads)
    exact fun hcycle => lt_irrefl p (hforward hcycle)

/-- The search from the start of a file ends just when no header that it comes to leads back
to itself, nor is its name compared with an extension that the array cannot hold. So it does with
extensions that fit and sizes that a `long` can hold. -/
theorem scan_ends_iff (content : Bytes) (extensions : List CString) :
    ((∃ fuel result, scan content extensions fuel 0 = some result) ↔
      ∀ p, Reaches (following content extensions) 0 p →
        visit content extensions p ≠ .overrun ∧
          ¬ Relation.TransGen (Leads (following content extensions)) p p) ∧
    ((∀ ext ∈ extensions, ext.length < 7) →
      (∀ p, Reaches (following content extensions) 0 p → ∀ entry,
        entryAt content p = some entry → entry.compressedSize < 2 ^ 31) →
      ∃ fuel result, scan content extensions fuel 0 = some result) :=
  ⟨exists_result_iff content extensions, scan_ends_of_sizes⟩

/-- A text of three bytes is passed over, and nothing comes after it. -/
def textOnly : Bytes :=
  [80, 75, 3, 4, 20, 0, 0, 0, 0, 0, 0, 0, 0, 0, 0, 0, 0, 0, 3, 0, 0, 0, 3, 0, 0, 0,
    5, 0, 0, 0, 97, 46, 116, 120, 116, 1, 2, 3]

theorem scan_ends_textOnly :
    ∃ fuel result, scan textOnly ["gb".toList] fuel 0 = some result := by
  refine (scan_ends_iff textOnly ["gb".toList]).2 (by decide) fun p _ entry hentry => ?_
  have hlength : p + 30 ≤ 38 := (data_of_entryAt hentry).2
  have hsizes : ∀ p ≤ 8, ∀ entry ∈ entryAt textOnly p, entry.compressedSize < 2 ^ 31 := by
    decide +kernel
  exact hsizes p (by omega) entry hentry

/-- An archive with one header, whose size leads back to it. -/
def backwards : Bytes :=
  [80, 75, 3, 4, 20, 0, 0, 0, 0, 0, 0, 0, 0, 0, 0, 0, 0, 0, 0xE1, 0xFF, 0xFF, 0xFF, 0, 0, 0, 0,
    1, 0, 0, 0, 97]

theorem backwards_forever : ¬ ∃ fuel result, scan backwards ["gb".toList] fuel 0 = some result := by
  have hvisit : visit backwards ["gb".toList] 0 = .skip 0 := by decide +kernel
  rintro ⟨fuel, result, hscan⟩
  induction fuel with
  | zero => cases hscan
  | succ fuel ih =>
      unfold scan at hscan
      rw [hvisit] at hscan
      exact ih hscan

end DarkUI.Minarch.Zip
