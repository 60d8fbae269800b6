import DarkUI.Common.DisplayName

/-! # Display names

`getDisplayName` stays within its arrays and ends, and when what it returns is fit to be shown.
-/

namespace DarkUI

open Text Cells

namespace DisplayName

/-- The two builds. -/
inductive Build
  | rg35xx
  | rg35xxplus

def Build.device : Build → Device
  | .rg35xx => DarkUI.rg35xx
  | .rg35xxplus => DarkUI.rg35xxplus

variable {device : Device} {a : List Char} {s : CString} {size : Nat}

/-- What the loops of `getDisplayName` begin with. -/
def fileName (device : Device) (inName : CString) : CString :=
  match splitLast '/' (if suffixMatch ('/' :: device.platform) inName then parentPath inName
    else inName) with
  | some (_, name) => name
  | none => inName

def stemOf (name : CString) : CString := stripExtensions name.length name

def bareOf (stem : CString) : CString := stripParens stem.length stem

/-- What they make of it. -/
def shortened (name : CString) : CString :=
  trimTrailingSpace (if bareOf (stemOf name) = [] then stemOf name else bareOf (stemOf name))

theorem getDisplayName_eq (device : Device) (inName : CString) :
    getDisplayName device inName = shortened (fileName device inName) := rfl

/-- More rounds than characters change nothing. -/
theorem stripExtensions_rounds {m n : Nat} (hm : s.length ≤ m) (hn : s.length ≤ n) :
    stripExtensions m s = stripExtensions n s := by
  induction m generalizing n s with
  | zero =>
      rw [List.length_eq_zero_iff.mp (Nat.le_zero.mp hm)]
      cases n <;> rfl
  | succ m ih =>
      cases n with
      | zero =>
          rw [List.length_eq_zero_iff.mp (Nat.le_zero.mp hn)]
          rfl
      | succ n =>
          unfold stripExtensions
          split
          next stem extension hsplit =>
            obtain ⟨rfl, -⟩ := splitLast_eq_some.mp hsplit
            rw [List.length_append, List.length_cons] at hm hn
            exact if_congr Iff.rfl (ih (by omega) (by omega)) rfl
          next => rfl

theorem lastParen_eq_some {stem : CString} (h : lastParen s = some stem) :
    ∃ c after, s = stem ++ c :: after := by
  unfold lastParen at h
  split at h
  next stem' after hsplit =>
    cases h
    exact ⟨'(', after, (splitLast_eq_some.mp hsplit).1⟩
  next =>
    obtain ⟨⟨before, after⟩, hsplit, rfl⟩ := Option.map_eq_some_iff.mp h
    exact ⟨'[', after, (splitLast_eq_some.mp hsplit).1⟩

theorem stripParens_rounds {m n : Nat} (hm : s.length ≤ m) (hn : s.length ≤ n) :
    stripParens m s = stripParens n s := by
  induction m generalizing n s with
  | zero =>
      rw [List.length_eq_zero_iff.mp (Nat.le_zero.mp hm)]
      cases n <;> rfl
  | succ m ih =>
      cases n with
      | zero =>
          rw [List.length_eq_zero_iff.mp (Nat.le_zero.mp hn)]
          rfl
      | succ n =>
          unfold stripParens
          split
          next => rfl
          next stem hne hlast =>
            obtain ⟨c, after, rfl⟩ := lastParen_eq_some hlast
            rw [List.length_append, List.length_cons] at hm hn
            exact ih (by omega) (by omega)
          next => rfl

/-- The loop over the array removes what the loop over the string does. -/
theorem removeExtensions_spec (rounds : Nat) (h : Holds size a s) (hrounds : s.length < rounds) :
    ∃ b, removeExtensions rounds a = some b ∧ Holds size b (stemOf s) := by
  unfold stemOf
  induction rounds generalizing a s with
  | zero => omega
  | succ rounds ih =>
      unfold removeExtensions
      rw [h.read, Option.bind_eq_bind, Option.bind_some]
      cases hlength : s.length with
      | zero =>
          rw [List.length_eq_zero_iff.mp hlength] at h ⊢
          exact ⟨a, rfl, h⟩
      | succ n =>
          unfold stripExtensions
          cases hsplit : splitLast '.' s with
          | none => exact ⟨a, rfl, h⟩
          | some pair =>
              obtain ⟨stem, extension⟩ := pair
              obtain ⟨rfl, -⟩ := splitLast_eq_some.mp hsplit
              dsimp only
              split
              next =>
                obtain ⟨b, hstore, hb⟩ := h.cut
                rw [List.length_append, List.length_cons] at hlength hrounds
                obtain ⟨b', hloop, hb'⟩ := ih hb (by omega)
                refine ⟨b', by rw [hstore]; exact hloop, ?_⟩
                rwa [stripExtensions_rounds (n := stem.length) (by omega) (le_refl _)]
              next => exact ⟨a, rfl, h⟩

theorem removeParens_spec (rounds : Nat) (h : Holds size a s) (hrounds : s.length < rounds) :
    ∃ b, removeParens rounds a = some b ∧ Holds size b (bareOf s) := by
  unfold bareOf
  induction rounds generalizing a s with
  | zero => omega
  | succ rounds ih =>
      unfold removeParens
      rw [h.read, Option.bind_eq_bind, Option.bind_some]
      cases hlength : s.length with
      | zero =>
          rw [List.length_eq_zero_iff.mp hlength] at h ⊢
          exact ⟨a, rfl, h⟩
      | succ n =>
          unfold stripParens
          cases hlast : lastParen s with
          | none => exact ⟨a, rfl, h⟩
          | some stem =>
              cases stem with
              | nil => exact ⟨a, rfl, h⟩
              | cons x xs =>
                  obtain ⟨c, after, rfl⟩ := lastParen_eq_some hlast
                  obtain ⟨b, hstore, hb⟩ := h.cut
                  rw [List.length_append, @List.length_cons _ _ after] at hlength hrounds
                  obtain ⟨b', hloop, hb'⟩ := ih hb (by omega)
                  refine ⟨b', by dsimp only; rw [if_neg (by simp), hstore]; exact hloop, ?_⟩
                  dsimp only
                  rwa [stripParens_rounds (n := (x :: xs).length) (by omega) (le_refl _)]

/-- A character that is no letter is no letter in upper case either. -/
theorem eq_of_toLower_eq {c d : Char} (h : c.toLower = d) (hd : d.isLower = false) : c = d := by
  unfold Char.toLower at h
  split at h
  next hupper =>
    subst h
    have hge : 65 ≤ c.val.toNat := UInt32.le_iff_toNat_le.mp hupper.1
    have hle : c.val.toNat ≤ 90 := UInt32.le_iff_toNat_le.mp hupper.2
    have hsum : (c.val + ('a'.val - 'A'.val)).toNat = c.val.toNat + 32 := by
      have h32 : ('a'.val - 'A'.val).toNat = 32 := rfl
      rw [UInt32.toNat_add, h32]
      omega
    have h97 : 'a'.val.toNat = 97 := rfl
    have h122 : 'z'.val.toNat = 122 := rfl
    have hlower : (decide ('a'.val ≤ c.val + ('a'.val - 'A'.val)) &&
        decide (c.val + ('a'.val - 'A'.val) ≤ 'z'.val)) = false := hd
    simp only [Bool.and_eq_false_iff, decide_eq_false_iff_not, UInt32.le_iff_toNat_le,
      hsum] at hlower
    omega
  next => exact h

/-- A path that ends in the platform's folder is one with that folder behind its last slash. -/
theorem exists_of_suffixMatch (h : suffixMatch ('/' :: device.platform) s) :
    ∃ parent folder, s = parent ++ '/' :: folder ∧ lower folder = lower device.platform := by
  obtain ⟨before, hbefore⟩ := List.isSuffixOf_iff_suffix.mp h
  obtain ⟨parent, rest, rfl, -, hrest⟩ := List.map_eq_append_iff.mp hbefore.symm
  obtain ⟨slash, folder, rfl, hslash, hfolder⟩ := List.map_eq_cons_iff.mp hrest
  have hslash' : slash = '/' := eq_of_toLower_eq hslash (by decide)
  exact ⟨parent, folder, by rw [hslash'], hfolder⟩

theorem hidePlatform_spec (device : Device) (h : Holds size a s) :
    ∃ b, hidePlatform device a = some b ∧
      Holds size b (if suffixMatch ('/' :: device.platform) s then parentPath s else s) := by
  unfold hidePlatform
  rw [h.read, Option.bind_eq_bind, Option.bind_some]
  split
  next hplatform =>
    obtain ⟨parent, folder, hs, -⟩ := exists_of_suffixMatch hplatform
    have hmem : '/' ∈ s := by simp [hs]
    cases hsplit : splitLast '/' s with
    | none => exact absurd hmem (splitLast_eq_none.mp hsplit)
    | some pair =>
        have hparent : parentPath s = pair.1 := by rw [parentPath, hsplit]
        rw [hparent]
        exact ((splitLast_eq_some.mp hsplit).1 ▸ h).cut
  next => exact ⟨a, rfl, h⟩

/-- The file's name is copied, or the whole path stays. -/
theorem extractName_spec {out : List Char}
    (h : Holds size a (if suffixMatch ('/' :: device.platform) s then parentPath s else s))
    (hout : Holds size out s) :
    ∃ b, extractName a out = some b ∧ Holds size b (fileName device s) := by
  unfold extractName fileName
  rw [h.read, Option.bind_eq_bind, Option.bind_some]
  cases hsplit : splitLast '/' (if suffixMatch ('/' :: device.platform) s then parentPath s
    else s) with
  | none => exact ⟨out, rfl, hout⟩
  | some pair =>
      obtain ⟨parent, name⟩ := pair
      rw [(splitLast_eq_some.mp hsplit).1] at h
      have hlt := h.lt
      rw [List.length_append, List.length_cons] at hlt
      have hnul : '\x00' ∉ name := fun hmem => h.nul_not_mem (by simp [hmem])
      obtain ⟨b, hcopy, hb⟩ := exists_strcpy hnul (a := out) (by rw [hout.length_eq]; omega)
      exact ⟨b, hcopy, hout.length_eq ▸ hb⟩

theorem trimTrailingSpace_concat (hne : s ≠ []) (c : Char) :
    trimTrailingSpace (s ++ [c]) = if isSpace c then trimTrailingSpace s else s ++ [c] := by
  obtain ⟨x, xs, rfl⟩ := List.exists_cons_of_ne_nil hne
  change x :: (xs ++ [c]).rdropWhile isSpace =
    if isSpace c then x :: xs.rdropWhile isSpace else x :: (xs ++ [c])
  rw [List.rdropWhile_concat]
  split <;> rfl

theorem trimTrailingSpace_begins (s : CString) : trimTrailingSpace s <+: s := by
  cases s with
  | nil => exact List.nil_prefix
  | cons c rest => exact (List.prefix_cons_inj c).mpr (List.rdropWhile_prefix _ _)

/-- Back over white space is where the name without it ends. -/
theorem skipSpace_spec (h : Holds size a s) {n : Nat} (hn : n ≤ s.length) :
    skipSpace a n = some (trimTrailingSpace (s.take n)).length := by
  induction n with
  | zero => rfl
  | succ n ih =>
      have htake : s.take (n + 1) = s.take n ++ [s[n]] := List.take_succ_eq_append_getElem hn
      unfold skipSpace
      split
      next hzero =>
        subst hzero
        rw [htake]
        rfl
      next hpos =>
        have hne : s.take n ≠ [] := by
          intro hnil
          have hlength := congrArg List.length hnil
          rw [List.length_take, List.length_nil] at hlength
          omega
        rw [h.load hn, Option.bind_eq_bind, Option.bind_some, htake,
          trimTrailingSpace_concat hne]
        split
        next => exact ih (by omega)
        next =>
          rw [List.length_append, List.length_take, List.length_singleton]
          congr 1
          omega

/-- The last lines cut the name there. -/
theorem trim_spec (h : Holds size a s) :
    ∃ b, ((skipSpace a s.length).bind fun position => store a position '\x00') = some b ∧
      Holds size b (trimTrailingSpace s) := by
  rw [skipSpace_spec h (le_refl _), List.take_length, Option.bind_some]
  obtain ⟨rest, hrest⟩ := trimTrailingSpace_begins s
  exact (hrest.symm ▸ h).cut

/-- Whatever is in the arrays at first, no access leaves them, the loops end, and `out_name` holds
the display name. -/
theorem run_spec (device : Device) {workName outName : List Char} (hnul : '\x00' ∉ s)
    (hlt : s.length < maxPath)
    (hwork : workName.length = maxPath) (hout : outName.length = maxPath) :
    ∃ b, run device s workName outName = some b ∧ Holds maxPath b (getDisplayName device s) := by
  obtain ⟨work, hcopy, hwork⟩ := hwork ▸ exists_strcpy (a := workName) hnul (hwork.symm ▸ hlt)
  obtain ⟨out, hcopyOut, hout⟩ := hout ▸ exists_strcpy (a := outName) hnul (hout.symm ▸ hlt)
  obtain ⟨cut, hcut, hpath⟩ := hidePlatform_spec device hwork
  obtain ⟨named, hnamed, hname⟩ := extractName_spec hpath hout
  obtain ⟨short, hshort, hstem⟩ := removeExtensions_spec (named.length + 1) hname
    (by rw [hname.length_eq]; exact Nat.lt_succ_of_lt hname.lt)
  obtain ⟨kept, hkept, hrestored⟩ := exists_strcpy (a := cut) hstem.nul_not_mem
    (by rw [hpath.length_eq]; exact hstem.lt)
  obtain ⟨bare, hbare, hname'⟩ := removeParens_spec (short.length + 1) hstem
    (by rw [hstem.length_eq]; exact Nat.lt_succ_of_lt hstem.lt)
  unfold run
  simp only [Option.bind_eq_bind]
  rw [hcopy, Option.bind_some, hcopyOut, Option.bind_some, hcut, Option.bind_some, hnamed,
    Option.bind_some, hshort, Option.bind_some, hstem.read, Option.bind_some, hkept,
    Option.bind_some, hbare, Option.bind_some, hname'.read, Option.bind_some]
  rw [getDisplayName_eq, shortened]
  by_cases hempty : bareOf (stemOf (fileName device s)) = []
  · rw [if_pos hempty, if_pos hempty]
    obtain ⟨last, hlast, hname⟩ := exists_strcpy (a := bare) hstem.nul_not_mem
      (by rw [hname'.length_eq]; exact hstem.lt)
    rw [hname'.length_eq] at hname
    rw [hrestored.read, Option.bind_some, hlast, Option.bind_some, hname.read, Option.bind_some]
    exact trim_spec hname
  · rw [if_neg hempty, if_neg hempty, Option.bind_some, hname'.read, Option.bind_some]
    exact trim_spec hname'

/-- Extensions of two to four characters, one behind the other. -/
inductive Extensions : CString → Prop
  | nil : Extensions []
  | snoc {rest extension : CString} : Extensions rest → 2 ≤ extension.length →
      extension.length ≤ 4 → '.' ∉ extension → Extensions (rest ++ '.' :: extension)

/-- What is removed are extensions. -/
theorem exists_extensions (s : CString) : ∃ exts, s = stemOf s ++ exts ∧ Extensions exts := by
  suffices h : ∀ n (s : CString), s.length ≤ n →
      ∃ exts, s = stripExtensions n s ++ exts ∧ Extensions exts from h _ s (le_refl _)
  intro n
  induction n with
  | zero =>
      intro s hs
      rw [List.length_eq_zero_iff.mp (Nat.le_zero.mp hs)]
      exact ⟨[], rfl, .nil⟩
  | succ n ih =>
      intro s hs
      unfold stripExtensions
      split
      next stem extension hsplit =>
        obtain ⟨rfl, hdot⟩ := splitLast_eq_some.mp hsplit
        rw [List.length_append, List.length_cons] at hs
        split
        next hlength =>
          obtain ⟨exts, hstem, hexts⟩ := ih stem (by omega)
          refine ⟨exts ++ '.' :: extension, ?_, hexts.snoc (by omega) (by omega) hdot⟩
          rw [← List.append_assoc, ← hstem]
        next => exact ⟨[], (List.append_nil _).symm, .nil⟩
      next => exact ⟨[], (List.append_nil _).symm, .nil⟩

/-- No extension is left. -/
theorem stemOf_length_le {t exts : CString} (hexts : Extensions exts) :
    (stemOf (t ++ exts)).length ≤ t.length := by
  suffices h : ∀ n, (t ++ exts).length ≤ n → (stripExtensions n (t ++ exts)).length ≤ t.length
    from h _ (le_refl _)
  induction hexts with
  | nil =>
      intro n hn
      obtain ⟨exts, hstem, -⟩ := exists_extensions (t ++ [])
      have hlength := congrArg List.length hstem
      rw [List.length_append, List.length_append, List.length_nil, stemOf,
        stripExtensions_rounds (le_refl _) hn] at hlength
      omega
  | snoc hrest htwo hfour hdot ih =>
      rename_i rest extension
      intro n hn
      rw [← List.append_assoc] at hn ⊢
      rw [List.length_append, List.length_cons] at hn
      cases n with
      | zero => omega
      | succ n =>
          have hsplit : splitLast '.' (t ++ rest ++ '.' :: extension) =
              some (t ++ rest, extension) :=
            splitLast_eq_some.mpr ⟨rfl, hdot⟩
          unfold stripExtensions
          rw [hsplit]
          dsimp only
          rw [if_pos (by omega)]
          exact ih n (by omega)

theorem stemOf_eq_nil_iff : stemOf s = [] ↔ Extensions s := by
  constructor
  · intro h
    obtain ⟨exts, hs, hexts⟩ := exists_extensions s
    rw [h, List.nil_append] at hs
    exact hs ▸ hexts
  · intro h
    exact List.length_eq_zero_iff.mp (Nat.le_zero.mp (stemOf_length_le (t := []) h))

/-- What the loop over parentheses leaves: a beginning of the name, which is not empty if the name
is not, and whose last parenthesis is its first character if it has one. -/
theorem bareOf_spec (s : CString) : bareOf s <+: s ∧ (s ≠ [] → bareOf s ≠ []) ∧
    ∀ stem, lastParen (bareOf s) = some stem → stem = [] := by
  suffices h : ∀ n (s : CString), s.length ≤ n → stripParens n s <+: s ∧
      (s ≠ [] → stripParens n s ≠ []) ∧
        ∀ stem, lastParen (stripParens n s) = some stem → stem = [] from h _ s (le_refl _)
  intro n
  induction n with
  | zero =>
      intro s hs
      rw [List.length_eq_zero_iff.mp (Nat.le_zero.mp hs)]
      exact ⟨List.prefix_rfl, fun h => absurd rfl h, fun stem h => nomatch h⟩
  | succ n ih =>
      intro s hs
      unfold stripParens
      split
      next hlast =>
        exact ⟨List.prefix_rfl, id, fun stem hstem => Option.some.inj (hstem.symm.trans hlast)⟩
      next stem hne hlast =>
        obtain ⟨c, after, rfl⟩ := lastParen_eq_some hlast
        rw [List.length_append, List.length_cons] at hs
        obtain ⟨hbegins, hkept, hfirst⟩ := ih stem (by omega)
        exact ⟨hbegins.trans (List.prefix_append _ _), fun _ => hkept hne, hfirst⟩
      next hlast =>
        exact ⟨List.prefix_rfl, id, fun stem hstem => nomatch hstem.symm.trans hlast⟩

theorem takeWhile_append_cons {c : Char} (before after : CString) :
    (before ++ c :: after).takeWhile (· != c) = before.takeWhile (· != c) := by
  rw [List.takeWhile_append]
  split
  next hall =>
    have hself := (List.takeWhile_prefix (l := before) (· != c)).eq_of_length hall
    simp [hself]
  next => rfl

/-- A parenthesis at the very beginning is kept, and the name goes on to the next one. -/
theorem bareOf_paren (u : CString) : bareOf ('(' :: u) = '(' :: u.takeWhile (· != '(') := by
  suffices h : ∀ n (u : CString), u.length + 1 ≤ n →
      stripParens n ('(' :: u) = '(' :: u.takeWhile (· != '(') from h _ u (le_refl _)
  intro n
  induction n with
  | zero => omega
  | succ n ih =>
      intro u hu
      unfold stripParens lastParen splitLast
      cases hsplit : splitLast '(' u with
      | none =>
          have hnone : '(' ∉ u := splitLast_eq_none.mp hsplit
          have hall : u.takeWhile (· != '(') = u := by
            rw [List.takeWhile_eq_self_iff]
            intro c hc
            exact bne_iff_ne.mpr fun heq => hnone (heq ▸ hc)
          simp [hall]
      | some pair =>
          obtain ⟨before, after⟩ := pair
          obtain ⟨rfl, -⟩ := splitLast_eq_some.mp hsplit
          rw [List.length_append, List.length_cons] at hu
          dsimp only
          rw [ih before (by omega), takeWhile_append_cons]

/-- A bracket inside a parenthesis that the name starts with, before any other parenthesis and
before the extensions. -/
def Muddled (s : CString) : Prop :=
  ∃ a b : CString, s = '(' :: a ++ '[' :: b ∧ '(' ∉ a ∧
    ∀ t exts, s = t ++ exts → Extensions exts → a.length + 1 < t.length

theorem muddled_iff :
    Muddled s ↔ ∃ u, stemOf s = '(' :: u ∧ '[' ∈ u.takeWhile (· != '(') := by
  obtain ⟨exts, hs, hexts⟩ := exists_extensions s
  constructor
  · rintro ⟨a, b, hab, hparen, hlength⟩
    have hbracket : '(' :: a ++ ['['] <+: s := ⟨b, by rw [hab]; simp⟩
    have hstem : stemOf s <+: s := ⟨exts, hs.symm⟩
    have hlt := hlength _ _ hs hexts
    have hle : ('(' :: a ++ ['[']).length ≤ (stemOf s).length := by
      rw [List.length_append, List.length_cons, List.length_singleton]
      omega
    obtain ⟨rest, hrest⟩ := List.prefix_of_prefix_length_le hbracket hstem hle
    refine ⟨a ++ '[' :: rest, by rw [← hrest]; simp, ?_⟩
    have hall : ∀ c ∈ a, (c != '(') = true := fun c hc =>
      bne_iff_ne.mpr fun heq => hparen (heq ▸ hc)
    rw [List.takeWhile_append_of_pos hall]
    simp
  · rintro ⟨u, hu, hmem⟩
    obtain ⟨a, b, hab⟩ := List.append_of_mem hmem
    have hsplit := List.takeWhile_append_dropWhile (p := (· != '(')) (l := u)
    have hbefore : '(' ∉ a := by
      intro hparen
      have hne := List.mem_takeWhile_imp (hab ▸ List.mem_append_left ('[' :: b) hparen)
      simp at hne
    rw [hab] at hsplit
    refine ⟨a, b ++ u.dropWhile (· != '(') ++ exts, ?_, hbefore, fun t exts' ht hexts' => ?_⟩
    · conv_lhs => rw [hs, hu, ← hsplit]
      simp
    · have hle : (stemOf s).length ≤ t.length := by
        rw [ht]
        exact stemOf_length_le hexts'
      rw [hu, ← hsplit] at hle
      simp only [List.length_cons, List.length_append] at hle
      omega

/-- Without a parenthesis at the beginning, none is left behind the beginning. -/
theorem not_mem_of_lastParen {x : Char} {r : CString} (hx : x ≠ '(')
    (hlast : ∀ stem, lastParen (x :: r) = some stem → stem = []) : '(' ∉ r ∧ '[' ∉ r := by
  unfold lastParen at hlast
  cases hparen : splitLast '(' (x :: r) with
  | some pair =>
      obtain ⟨stem, after⟩ := pair
      rw [hparen] at hlast
      have hsplit := (splitLast_eq_some.mp hparen).1
      rw [hlast stem rfl, List.nil_append, List.cons.injEq] at hsplit
      exact absurd hsplit.1 hx
  | none =>
      have hnone := splitLast_eq_none.mp hparen
      refine ⟨fun hmem => hnone (List.mem_cons_of_mem x hmem), ?_⟩
      rw [hparen] at hlast
      cases hbracket : splitLast '[' (x :: r) with
      | none => exact fun hmem => splitLast_eq_none.mp hbracket (List.mem_cons_of_mem x hmem)
      | some pair =>
          obtain ⟨stem, after⟩ := pair
          rw [hbracket] at hlast
          obtain ⟨hsplit, hafter⟩ := splitLast_eq_some.mp hbracket
          rw [hlast stem rfl, List.nil_append, List.cons.injEq] at hsplit
          exact hsplit.2 ▸ hafter

/-- What the loop leaves has no parenthesis behind its beginning, but for a bracket behind one
parenthesis. -/
theorem bareOf_clean_iff : ('(' ∉ (bareOf s).tail ∧ '[' ∉ (bareOf s).tail) ↔
    ¬ ∃ u, s = '(' :: u ∧ '[' ∈ u.takeWhile (· != '(') := by
  cases s with
  | nil => exact iff_of_true ⟨List.not_mem_nil, List.not_mem_nil⟩ fun ⟨u, hu, _⟩ => nomatch hu
  | cons x xs =>
      by_cases hx : x = '('
      · subst hx
        rw [bareOf_paren, List.tail_cons]
        have hnone : '(' ∉ xs.takeWhile (· != '(') := by
          intro hmem
          simpa using List.mem_takeWhile_imp hmem
        simp [hnone]
      · obtain ⟨hbegins, hne, hlast⟩ := bareOf_spec (x :: xs)
        obtain ⟨y, r, hbare⟩ := List.exists_cons_of_ne_nil (hne (List.cons_ne_nil x xs))
        rw [hbare] at hbegins hlast ⊢
        have hyx : y = x := (List.cons_prefix_cons.mp hbegins).1
        subst hyx
        refine iff_of_true (not_mem_of_lastParen hx hlast) ?_
        rintro ⟨u, hu, -⟩
        exact hx (List.cons.inj hu).1

/-- A name that can be shown for a component of a path. -/
structure Presentable (component name : CString) : Prop where
  ne_nil : name ≠ []
  isPrefix : name <+: component
  trimmed : 1 < name.length → ∀ c ∈ name.getLast?, isSpace c = false
  paren : '(' ∉ name.tail
  bracket : '[' ∉ name.tail

theorem trimTrailingSpace_ne_nil (h : s ≠ []) : trimTrailingSpace s ≠ [] := by
  obtain ⟨c, rest, rfl⟩ := List.exists_cons_of_ne_nil h
  exact List.cons_ne_nil _ _

/-- Only the first character may be white space at the end. -/
theorem trimTrailingSpace_trimmed (hlong : 1 < (trimTrailingSpace s).length) :
    ∀ c ∈ (trimTrailingSpace s).getLast?, isSpace c = false := by
  intro c hc
  cases s with
  | nil => cases hc
  | cons x rest =>
      have hne : rest.rdropWhile isSpace ≠ [] := by
        intro hnil
        rw [trimTrailingSpace, hnil] at hlong
        exact absurd hlong (lt_irrefl 1)
      rw [trimTrailingSpace, Option.mem_def, List.getLast?_cons_of_ne_nil hne,
        List.getLast?_eq_some_getLast hne, Option.some.injEq] at hc
      have hlast := List.rdropWhile_last_not isSpace rest hne
      rwa [hc, Bool.not_eq_true] at hlast

/-- What is no white space is not trimmed. -/
theorem mem_tail_trimTrailingSpace {c : Char} (hc : isSpace c = false) :
    c ∈ (trimTrailingSpace s).tail ↔ c ∈ s.tail := by
  cases s with
  | nil => exact Iff.rfl
  | cons x rest =>
      rw [trimTrailingSpace, List.tail_cons, List.tail_cons]
      have hsplit : rest.rdropWhile isSpace ++ rest.rtakeWhile isSpace = rest :=
        List.rdropWhile_append_rtakeWhile
      conv_rhs => rw [← hsplit, List.mem_append]
      refine (or_iff_left fun hmem => ?_).symm
      exact absurd (List.mem_rtakeWhile_imp hmem) (by simp [hc])

theorem mem_trimTrailingSpace {c : Char} (hc : isSpace c = false) :
    c ∈ trimTrailingSpace s ↔ c ∈ s := by
  cases s with
  | nil => exact Iff.rfl
  | cons x rest =>
      have htail := mem_tail_trimTrailingSpace (s := x :: rest) hc
      rw [trimTrailingSpace, List.tail_cons, List.tail_cons] at htail
      rw [trimTrailingSpace, List.mem_cons, List.mem_cons, htail]

theorem shortened_eq (h : stemOf s ≠ []) : shortened s = trimTrailingSpace (bareOf (stemOf s)) := by
  rw [shortened, if_neg ((bareOf_spec _).2.1 h)]

theorem shortened_begins (s : CString) : shortened s <+: s := by
  obtain ⟨exts, hs, -⟩ := exists_extensions s
  have hstem : stemOf s <+: s := ⟨exts, hs.symm⟩
  refine (trimTrailingSpace_begins _).trans ?_
  split
  · exact hstem
  · exact (bareOf_spec _).1.trans hstem

/-- What is made of a name can be shown, unless the name is all extensions or a bracket stays. -/
theorem presentable_shortened_iff {component : CString} :
    Presentable component (shortened s) ↔
      ¬ Extensions s ∧ ¬ Muddled s ∧ shortened s <+: component := by
  rw [muddled_iff, ← stemOf_eq_nil_iff, ← bareOf_clean_iff]
  constructor
  · intro h
    have hstem : stemOf s ≠ [] := by
      intro hnil
      have hbare : bareOf ([] : CString) = [] := rfl
      refine h.ne_nil ?_
      rw [shortened, hnil, hbare]
      rfl
    have hparen := h.paren
    have hbracket := h.bracket
    rw [shortened_eq hstem, mem_tail_trimTrailingSpace (by decide)] at hparen hbracket
    exact ⟨hstem, ⟨hparen, hbracket⟩, h.isPrefix⟩
  · rintro ⟨hstem, ⟨hparen, hbracket⟩, hbegins⟩
    rw [shortened_eq hstem] at hbegins ⊢
    refine ⟨trimTrailingSpace_ne_nil ((bareOf_spec _).2.1 hstem), hbegins,
      trimTrailingSpace_trimmed, ?_, ?_⟩
    · rwa [mem_tail_trimTrailingSpace (by decide)]
    · rwa [mem_tail_trimTrailingSpace (by decide)]

/-- A folder from which the loop over parentheses cuts something off. -/
def Cut (folder : CString) : Prop :=
  ∃ x u, folder = x :: u ∧ ('(' ∈ u ∨ x ≠ '(' ∧ '[' ∈ u)

theorem bareOf_eq_self (hlast : ∀ stem, lastParen s = some stem → stem = []) : bareOf s = s := by
  unfold bareOf
  cases hlength : s.length with
  | zero => rfl
  | succ n =>
      unfold stripParens
      split
      next => rfl
      next stem hne hsome => exact absurd (hlast stem hsome) hne
      next => rfl

theorem lastParen_of_not_mem {x : Char} {r : CString} (hx : x ≠ '(') (hparen : '(' ∉ r)
    (hbracket : '[' ∉ r) : ∀ stem, lastParen (x :: r) = some stem → stem = [] := by
  intro stem hstem
  obtain ⟨c, after, hsplit⟩ := lastParen_eq_some hstem
  unfold lastParen at hstem
  have hnone : splitLast '(' (x :: r) = none :=
    splitLast_eq_none.mpr (by simp [Ne.symm hx, hparen])
  rw [hnone] at hstem
  obtain ⟨⟨before, behind⟩, hlast, rfl⟩ := Option.map_eq_some_iff.mp hstem
  obtain ⟨hr, -⟩ := splitLast_eq_some.mp hlast
  cases before with
  | nil => rfl
  | cons y ys =>
      rw [List.cons_append, List.cons.injEq] at hr
      exact absurd (hr.2 ▸ by simp) hbracket

variable {folder platform : CString}

theorem slash_not_mem_paren (hu : '/' ∉ folder) :
    '/' ∉ bareOf ('(' :: (folder ++ '/' :: platform)) ↔ '(' ∈ folder := by
  rw [bareOf_paren]
  constructor
  · intro h
    by_contra hnone
    have hall : ∀ c ∈ folder, (c != '(') = true := fun c hc =>
      bne_iff_ne.mpr fun heq => hnone (heq ▸ hc)
    rw [List.takeWhile_append_of_pos hall] at h
    simp at h
  · intro hmem
    obtain ⟨a, b, rfl⟩ := List.append_of_mem hmem
    rw [List.append_assoc, List.cons_append, takeWhile_append_cons, List.mem_cons, not_or]
    exact ⟨by decide, fun h => hu (by simp [(List.takeWhile_sublist _).subset h])⟩

theorem slash_not_mem_other {x : Char} (hx : x ≠ '(') (hslash : x ≠ '/') (hu : '/' ∉ folder)
    (hparen : '(' ∉ platform) (hbracket : '[' ∉ platform) :
    '/' ∉ bareOf (x :: (folder ++ '/' :: platform)) ↔ '(' ∈ folder ∨ '[' ∈ folder := by
  constructor
  · intro h
    by_contra hnone
    rw [not_or] at hnone
    have hlast := lastParen_of_not_mem (r := folder ++ '/' :: platform) hx
      (by simp [hnone.1, hparen]) (by simp [hnone.2, hbracket])
    rw [bareOf_eq_self hlast] at h
    simp at h
  · intro hmem hin
    obtain ⟨hbegins, hne, hlast⟩ := bareOf_spec (x :: (folder ++ '/' :: platform))
    obtain ⟨y, r, hbare⟩ := List.exists_cons_of_ne_nil (hne (List.cons_ne_nil _ _))
    rw [hbare] at hbegins hlast hin
    obtain ⟨rfl, hr⟩ := List.cons_prefix_cons.mp hbegins
    obtain ⟨hnoparen, hnobracket⟩ := not_mem_of_lastParen hx hlast
    have hin' : '/' ∈ r := (List.mem_cons.mp hin).resolve_left (Ne.symm hslash)
    -- the folder comes before the slash
    have hfolder : folder <+: r := by
      rcases List.prefix_or_prefix_of_prefix hr (List.prefix_append folder ('/' :: platform)) with
        hshort | hlong
      · exact absurd (hshort.subset hin') hu
      · exact hlong
    rcases hmem with hmem | hmem
    · exact hnoparen (hfolder.subset hmem)
    · exact hnobracket (hfolder.subset hmem)

/-- The loop over parentheses gets into the folder before the platform's just if it cuts something
off it. -/
theorem slash_not_mem_bareOf_iff (hfolder : '/' ∉ folder) (hparen : '(' ∉ platform)
    (hbracket : '[' ∉ platform) :
    '/' ∉ bareOf (folder ++ '/' :: platform) ↔ Cut folder := by
  cases folder with
  | nil =>
      obtain ⟨hbegins, hne, -⟩ := bareOf_spec ('/' :: platform)
      obtain ⟨y, r, hbare⟩ := List.exists_cons_of_ne_nil (hne (List.cons_ne_nil _ _))
      have hy : y = '/' := (List.cons_prefix_cons.mp (hbare ▸ hbegins)).1
      rw [List.nil_append, hbare]
      refine iff_of_false (fun h => h (hy ▸ List.mem_cons_self)) ?_
      rintro ⟨x, u, hnil, -⟩
      cases hnil
  | cons x u =>
      rw [List.mem_cons, not_or] at hfolder
      have hcut : Cut (x :: u) ↔ '(' ∈ u ∨ x ≠ '(' ∧ '[' ∈ u := by
        constructor
        · rintro ⟨x', u', heq, h⟩
          cases heq
          exact h
        · exact fun h => ⟨x, u, rfl, h⟩
      rw [hcut, List.cons_append]
      by_cases hx : x = '('
      · subst hx
        simp [slash_not_mem_paren hfolder.2]
      · rw [slash_not_mem_other hx (Ne.symm hfolder.1) hfolder.2 hparen hbracket]
        simp [hx]

/-- Nothing is removed as an extension of a path that ends in a long name without a dot. -/
theorem not_extensions (hlong : 4 < platform.length) (hdot : '.' ∉ platform) {rest exts : CString}
    (hexts : Extensions exts) (h : folder ++ '/' :: platform = rest ++ exts) : exts = [] := by
  cases hexts with
  | nil => rfl
  | snoc hrest htwo hfour hbefore =>
      rename_i before extension
      rw [← List.append_assoc] at h
      have hsuffix : '.' :: extension <:+ folder ++ '/' :: platform := ⟨_, h.symm⟩
      have hplatform : platform <:+ folder ++ '/' :: platform := ⟨folder ++ ['/'], by simp⟩
      have hle : ('.' :: extension).length ≤ platform.length := by
        rw [List.length_cons]
        omega
      have hmem := (List.suffix_of_suffix_length_le hsuffix hplatform hle).subset
        List.mem_cons_self
      exact absurd hmem hdot

/-- A platform's folder as the paths of the tools end in it: a long name without the characters that
the loops look for. -/
structure Plain (platform : CString) : Prop where
  long : 4 < platform.length
  dot : '.' ∉ platform
  slash : '/' ∉ platform
  paren : '(' ∉ platform
  bracket : '[' ∉ platform

/-- Without another slash the loops work on the whole path. -/
theorem presentable_whole_iff (hfolder : '/' ∉ folder) (hplain : Plain platform) :
    Presentable folder (shortened (folder ++ '/' :: platform)) ↔
      Cut folder ∧ ¬ Muddled (folder ++ '/' :: platform) := by
  obtain ⟨exts, hstem, hexts⟩ := exists_extensions (folder ++ '/' :: platform)
  have hnone := not_extensions hplain.long hplain.dot hexts hstem
  rw [hnone, List.append_nil] at hstem
  have hne : stemOf (folder ++ '/' :: platform) ≠ [] := by
    rw [← hstem]
    simp
  have hnot : ¬ Extensions (folder ++ '/' :: platform) := fun h => hne (stemOf_eq_nil_iff.mpr h)
  have hcut : shortened (folder ++ '/' :: platform) <+: folder ↔ Cut folder := by
    rw [shortened_eq hne, ← hstem, ← slash_not_mem_bareOf_iff hfolder hplain.paren hplain.bracket]
    constructor
    · intro h hmem
      exact hfolder (h.subset ((mem_trimTrailingSpace (by decide)).mpr hmem))
    · intro h
      exact (trimTrailingSpace_begins _).trans (prefix_of_append_cons (bareOf_spec _).1 h)
  rw [presentable_shortened_iff, hcut]
  exact ⟨fun h => ⟨h.2.2, h.2.1⟩, fun h => ⟨hnot, h.2, h.1⟩⟩

/-- A folder that compares equal to the platform is as plain as its name. -/
theorem plain_of_lower (build : Build) (h : lower platform = lower build.device.platform) :
    Plain platform := by
  have hlength : platform.length = build.device.platform.length := by
    have hlength := congrArg List.length h
    rwa [length_lower, length_lower] at hlength
  have hnot (c : Char) (hc : c.toLower ∉ lower build.device.platform) : c ∉ platform := by
    intro hmem
    exact hc (h ▸ List.mem_map_of_mem hmem)
  refine ⟨?_, hnot '.' ?_, hnot '/' ?_, hnot '(' ?_, hnot '[' ?_⟩
  · rw [hlength]
    cases build <;> decide
  all_goals cases build <;> decide

/-- A path that fits, whose last component is neither empty nor hidden. -/
structure NamedPath where
  text : CString
  nul_not_mem : '\x00' ∉ text
  lt : text.length < maxPath
  named : baseName text ≠ []
  not_hidden : (baseName text).head? ≠ some '.'

/-- The arrays, with what happens to be in them. -/
structure Arrays where
  workName : List Char
  outName : List Char
  workName_length : workName.length = maxPath
  outName_length : outName.length = maxPath

/-- The component that is to be shown: the last one, or the one before the platform's folder. -/
def component (device : Device) (path : CString) : CString :=
  if suffixMatch ('/' :: device.platform) path then baseName (parentPath path) else baseName path

/-- The paths whose display names are as they should be. Of a path that is only a folder and the
platform's, something of the folder has to be cut off. -/
def Displayable (device : Device) (path : CString) : Prop :=
  if suffixMatch ('/' :: device.platform) path then
    if '/' ∈ parentPath path then
      ¬ Extensions (baseName (parentPath path)) ∧ ¬ Muddled (baseName (parentPath path))
    else Cut (parentPath path) ∧ ¬ Muddled path
  else ¬ Muddled (baseName path)

/-- Extensions begin with a dot. -/
theorem Extensions.head? {exts : CString} (h : Extensions exts) (hne : exts ≠ []) :
    exts.head? = some '.' := by
  induction h with
  | nil => exact absurd rfl hne
  | snoc hrest htwo hfour hdot ih =>
      rename_i rest extension
      cases rest with
      | nil => rfl
      | cons x xs => exact ih (List.cons_ne_nil x xs)

theorem baseName_eq_self {name : CString} (h : '/' ∉ name) : baseName name = name := by
  rw [baseName, splitLast_eq_none.mpr h]

theorem fileName_eq (device : Device) (path : CString) :
    fileName device path = if suffixMatch ('/' :: device.platform) path then
      if '/' ∈ parentPath path then baseName (parentPath path) else path
    else baseName path := by
  have hname (s : CString) : (match splitLast '/' s with
      | some (_, name) => name
      | none => path) = if '/' ∈ s then baseName s else path := by
    cases hsplit : splitLast '/' s with
    | none => rw [if_neg (splitLast_eq_none.mp hsplit)]
    | some pair =>
        have hmem : '/' ∈ s := by simp [(splitLast_eq_some.mp hsplit).1]
        rw [if_pos hmem, baseName, hsplit]
  unfold fileName
  rw [hname]
  split
  next => rfl
  next =>
    split
    next => rfl
    next h => exact (baseName_eq_self h).symm

/-- When a display name is as it should be. -/
theorem presentable_iff (build : Build) (path : NamedPath) :
    Presentable (component build.device path.text) (getDisplayName build.device path.text) ↔
      Displayable build.device path.text := by
  rw [getDisplayName_eq, fileName_eq, component, Displayable]
  split
  next hplatform =>
    split
    next =>
      rw [presentable_shortened_iff]
      simp [shortened_begins]
    next hslash =>
      obtain ⟨parent, folder, hpath, hfolder⟩ := exists_of_suffixMatch hplatform
      have hplain := plain_of_lower build hfolder
      have hparent : parentPath path.text = parent := by
        rw [parentPath, splitLast_eq_some.mpr ⟨hpath, hplain.slash⟩]
      rw [hparent] at hslash ⊢
      rw [baseName_eq_self hslash, hpath]
      exact presentable_whole_iff hslash hplain
  next =>
    have hnot : ¬ Extensions (baseName path.text) := fun h =>
      path.not_hidden (h.head? path.named)
    rw [presentable_shortened_iff]
    simp [shortened_begins, hnot]

/-- `getDisplayName` ends and never leaves its arrays, whatever is in them at first, and the name in
`out_name` is as it should be just for the paths that are displayable. -/
theorem displayName_iff (build : Build) (path : NamedPath) (arrays : Arrays) :
    (∃ out, run build.device path.text arrays.workName arrays.outName = some out) ∧
      ((∃ out name, run build.device path.text arrays.workName arrays.outName = some out ∧
          read out = some name ∧ Presentable (component build.device path.text) name) ↔
        Displayable build.device path.text) := by
  obtain ⟨out, hrun, hout⟩ := run_spec build.device path.nul_not_mem path.lt
    arrays.workName_length arrays.outName_length
  refine ⟨⟨out, hrun⟩, ?_⟩
  rw [← presentable_iff]
  constructor
  · rintro ⟨out', name, hrun', hread, hname⟩
    cases hrun.symm.trans hrun'
    cases hout.read.symm.trans hread
    exact hname
  · exact fun hname => ⟨out, _, hrun, hout.read, hname⟩

/-- A file whose name begins with a parenthesis and has a bracket behind it. -/
def hackPath : NamedPath where
  text := "/mnt/sdcard/Roms/Game Boy (GB)/(Hack) Mario [b1].gb".toList
  nul_not_mem := by decide
  lt := by decide
  named := by decide
  not_hidden := by decide

/-- Its display name is `(Hack) Mario [b1]`. -/
theorem displayName_bracket :
    ¬ ∀ (build : Build) (path : NamedPath) (arrays : Arrays),
      ∃ out name, run build.device path.text arrays.workName arrays.outName = some out ∧
        read out = some name ∧ Presentable (component build.device path.text) name := by
  intro h
  let arrays : Arrays :=
    ⟨List.replicate maxPath ' ', List.replicate maxPath ' ', List.length_replicate,
      List.length_replicate⟩
  obtain ⟨out, name, hrun, hread, hname⟩ := h .rg35xx hackPath arrays
  obtain ⟨out', hrun', hout'⟩ := run_spec Build.rg35xx.device hackPath.nul_not_mem
    hackPath.lt arrays.workName_length arrays.outName_length
  cases hrun'.symm.trans hrun
  cases hout'.read.symm.trans hread
  have hshown : getDisplayName Build.rg35xx.device hackPath.text = "(Hack) Mario [b1]".toList := by
    decide
  exact (hshown ▸ hname.bracket) (by decide)

end DisplayName

end DarkUI
