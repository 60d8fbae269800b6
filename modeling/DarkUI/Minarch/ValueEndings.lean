import DarkUI.Foundation.LineEndings
import DarkUI.Minarch.ConfigLaws
import DarkUI.Minarch.OptionsRead

/-! # Values in a text with other line endings

A key is found at the same place with the same marks, but its value keeps the carriage return
if the array holds the newline behind it. A number is read as before; the value of an option is
looked up with the carriage return.
-/

namespace DarkUI.Minarch

open Text KeyedLines

variable {key rest cfg : CString}

/-! ## One value -/

/-- With a carriage return before it the newline still falls into the array of the value. -/
def KeepsReturn (rest : CString) : Prop := '\n' ∈ rest.take 254

instance (rest : CString) : Decidable (KeepsReturn rest) := inferInstanceAs (Decidable (_ ∈ _))

theorem keepsReturn_line {line : CString} (hline : '\n' ∉ line) (after : CString) :
    KeepsReturn (line ++ '\n' :: after) ↔ line.length < 254 := by
  unfold KeepsReturn
  constructor
  · intro hmem
    by_contra hlong
    rw [List.take_append_of_le_length (not_lt.mp hlong)] at hmem
    exact hline (List.mem_of_mem_take hmem)
  · intro hshort
    obtain ⟨n, hn⟩ := Nat.exists_eq_add_of_lt hshort
    rw [hn, List.take_append, List.take_of_length_le (by omega),
      show line.length + n + 1 - line.length = n + 1 by omega, List.take_succ_cons]
    exact List.mem_append_right _ List.mem_cons_self

theorem takeWhile_return {line : CString} (h : '\r' ∉ line) (after : CString) :
    (line ++ '\r' :: after).takeWhile (· != '\r') = line := by
  have hall : ∀ c ∈ line, (c != '\r') = true := by
    intro c hc
    exact bne_iff_ne.mpr fun heq => h (heq ▸ hc)
  rw [List.takeWhile_append_of_pos hall]
  simp

/-- Without carriage returns as much is left of a line as the array holds. -/
theorem cutLine_of_notMem {line : CString} (h : '\r' ∉ line) : cutLine line = line.take 255 := by
  unfold cutLine
  split
  next hshort => rw [List.take_of_length_le hshort.le]
  next =>
    refine List.takeWhile_eq_self_iff.mpr fun c hc => bne_iff_ne.mpr fun heq => ?_
    exact h (heq ▸ List.mem_of_mem_take hc)

theorem cutLine_return {line : CString} (h : '\r' ∉ line) :
    cutLine (line ++ ['\r']) = if line.length < 254 then line ++ ['\r'] else line.take 255 := by
  unfold cutLine
  rw [List.length_append, List.length_singleton]
  rcases lt_trichotomy line.length 254 with hlt | heq | hgt
  · rw [if_pos (by omega), if_pos hlt]
  · rw [if_neg (by omega), if_neg (by omega), List.take_of_length_le (by simp [heq]),
      takeWhile_return h [], List.take_of_length_le (by omega)]
  · have hcut : (line ++ ['\r']).take 255 = line.take 255 := List.take_append_of_le_length hgt
    rw [if_neg (by omega), if_neg (by omega), hcut]
    refine List.takeWhile_eq_self_iff.mpr fun c hc => bne_iff_ne.mpr fun heq => ?_
    exact h (heq ▸ List.mem_of_mem_take hc)

/-- The carriage return before a newline in the array stays in the value. -/
theorem cutValue_crlf (h : '\r' ∉ rest) :
    cutValue (crlf rest) = if KeepsReturn rest then cutValue rest ++ ['\r'] else cutValue rest := by
  by_cases hmem : '\n' ∈ rest
  · obtain ⟨line, after, rfl, hline⟩ := List.eq_append_cons_of_mem hmem
    have hreturn : '\r' ∉ line := fun hmem => h (List.mem_append_left _ hmem)
    have hline' : '\n' ∉ line ++ ['\r'] := by simp [hline]
    rw [crlf_line hline, cutValue_line hline', cutValue_line hline, cutLine_return hreturn,
      cutLine_of_notMem hreturn]
    by_cases hshort : line.length < 254
    · rw [if_pos hshort, if_pos ((keepsReturn_line hline after).mpr hshort),
        List.take_of_length_le (by omega)]
    · rw [if_neg hshort, if_neg (mt (keepsReturn_line hline after).mp hshort)]
  · have hnot : ¬ KeepsReturn rest := fun hkeeps => hmem (List.mem_of_mem_take hkeeps)
    rw [crlf_of_notMem hmem, if_neg hnot]

theorem getValue_text {found : Found Char} (h : Config.getValue cfg key = some found) :
    found.text = (valueIn key equals 0 cfg).map cutValue := by
  unfold Config.getValue at h
  split at h
  next => cases h
  next =>
    cases h
    rw [search_text]

theorem getValue_isSome_iff : (Config.getValue cfg key).isSome ↔ (key = [] → equals <+: cfg) := by
  unfold Config.getValue
  split
  next h => exact iff_of_false (by simp) fun hbegins => h.2 (hbegins h.1)
  next h => exact iff_of_true rfl fun hempty => not_not.mp fun hnot => h ⟨hempty, hnot⟩

/-- A key that stands in a line is found at the same place, or looked for forever in both. -/
theorem getValue_crlf (hkey : InLine key) (cfg : CString) :
    Config.getValue (crlf cfg) key = (Config.getValue cfg key).map fun found =>
      ⟨(valueIn key equals 0 cfg).map fun rest => cutValue (crlf rest), found.marked⟩ := by
  have hequals : InLine equals := by decide
  by_cases hempty : key = []
  · subst hempty
    by_cases hbegins : equals <+: cfg
    · obtain ⟨rest, rfl⟩ := hbegins
      have hcrlf : crlf (equals ++ rest) = equals ++ crlf rest := by
        rw [crlf_append, crlf_of_notMem hequals.1]
      rw [hcrlf]
      rfl
    · rw [Config.getValue, if_pos ⟨rfl, mt (prefix_crlf hequals).mp hbegins⟩, Config.getValue,
        if_pos ⟨rfl, hbegins⟩, Option.map_none]
  · rw [Config.getValue, if_neg fun h => hempty h.1, Config.getValue, if_neg fun h => hempty h.1,
      search_crlf hkey hempty hequals (by simp)]
    dsimp only
    rw [Option.map_some, Option.map_map, search_text]
    rfl

/-- What follows a key that stands in a line goes on with its line endings. -/
theorem valueIn_crlf (hkey : InLine key) (hne : key ≠ []) (cfg : CString) :
    valueIn key equals 0 (crlf cfg) = (valueIn key equals 0 cfg).map crlf := by
  have hequals : InLine equals := by decide
  have hsearch : (search key equals '-' 0 none (crlf cfg)).text =
      (search key equals '-' 0 none cfg).text.map crlf := by
    rw [search_crlf hkey hne hequals (by simp)]
  rwa [search_text, search_text] at hsearch

/-! ## A number -/

theorem scanDigits_return (base acc : Nat) (s : CString) :
    scanDigits base acc (s ++ ['\r']) = scanDigits base acc s := by
  induction s generalizing acc with
  | nil => rfl
  | cons c s ih =>
      rw [List.cons_append, scanDigits, scanDigits]
      cases digitValue base c with
      | none => rfl
      | some value => exact ih _

/-- The base is told by what stands before a carriage return. -/
theorem scanBase_return (s : CString) :
    scanBase (s ++ ['\r']) = ((scanBase s).1, (scanBase s).2 ++ ['\r']) := by
  fun_cases scanBase s with
  | case1 digits => rfl
  | case2 digits => rfl
  | case3 digits hlower hupper =>
      cases digits with
      | nil => rfl
      | cons c digits =>
          rw [List.cons_append, List.cons_append, scanBase]
          · exact fun rest h => hlower digits (by rw [(List.cons.inj h).1])
          · exact fun rest h => hupper digits (by rw [(List.cons.inj h).1])
  | case4 _ _ _ hzero =>
      cases s with
      | nil => rfl
      | cons c s =>
          have hne (rest : CString) : c :: (s ++ ['\r']) = '0' :: rest → False :=
            fun h => hzero s (by rw [(List.cons.inj h).1])
          rw [List.cons_append, scanBase]
          · exact fun rest h => hne _ h
          · exact fun rest h => hne _ h
          · exact fun rest h => hne _ h

/-- A number ends before a carriage return. -/
theorem scanInt_return (s : CString) : scanInt (s ++ ['\r']) = scanInt s := by
  have hunsigned (s : CString) :
      scanDigits (scanBase (s ++ ['\r'])).1 0 (scanBase (s ++ ['\r'])).2 =
        scanDigits (scanBase s).1 0 (scanBase s).2 := by
    rw [scanBase_return, scanDigits_return]
  have hspace : isSpace '\r' = true := by decide
  unfold scanInt
  cases hnumber : s.dropWhile isSpace with
  | nil =>
      have hdrop : (s ++ ['\r']).dropWhile isSpace = [] := by
        rw [List.dropWhile_append, hnumber]
        simp [hspace]
      rw [hdrop]
  | cons c number =>
      have hdrop : (s ++ ['\r']).dropWhile isSpace = c :: (number ++ ['\r']) := by
        rw [List.dropWhile_append, hnumber]
        rfl
      rw [hdrop]
      by_cases hminus : c = '-'
      · subst hminus
        exact congrArg (fun n : Nat => -(n : Int)) (hunsigned number)
      · by_cases hplus : c = '+'
        · subst hplus
          exact congrArg Nat.cast (hunsigned number)
        · have hsame := congrArg (Nat.cast (R := Int)) (hunsigned (c :: number))
          split
          next h => exact absurd (List.cons.inj h).1 hminus
          next h => exact absurd (List.cons.inj h).1 hplus
          next =>
            split
            next h => exact absurd (List.cons.inj h).1 hminus
            next h => exact absurd (List.cons.inj h).1 hplus
            next => exact hsame

/-! ## Several texts -/

/-- What follows a key in the last text that gives it something. -/
def given (texts : List CString) (key : CString) : Option CString :=
  texts.reverse.findSome? (valueIn key equals 0)

theorem given_cons (cfg : CString) (texts : List CString) (key : CString) :
    given (cfg :: texts) key = (given texts key).or (valueIn key equals 0 cfg) := by
  unfold given
  rw [List.reverse_cons, List.findSome?_append]
  simp

theorem given_singleton (cfg key : CString) : given [cfg] key = valueIn key equals 0 cfg :=
  given_cons cfg [] key

theorem given_crlf (hkey : InLine key) (hne : key ≠ []) (texts : List CString) :
    given (texts.map crlf) key = (given texts key).map crlf := by
  induction texts with
  | nil => rfl
  | cons cfg texts ih =>
      rw [List.map_cons, given_cons, given_cons, ih, valueIn_crlf hkey hne]
      cases given texts key <;> rfl

theorem suffix_of_given {texts : List CString} (h : given texts key = some rest) :
    ∃ cfg ∈ texts, rest <:+ cfg := by
  obtain ⟨cfg, hcfg, hvalue⟩ := List.exists_of_findSome?_eq_some h
  exact ⟨cfg, List.mem_reverse.mp hcfg, suffix_of_valueIn hvalue⟩

theorem notMem_given {texts : List CString} (htexts : ∀ cfg ∈ texts, '\r' ∉ cfg)
    (h : given texts key = some rest) : '\r' ∉ rest := by
  obtain ⟨cfg, hcfg, hsuffix⟩ := suffix_of_given h
  exact fun hmem => htexts cfg hcfg (hsuffix.subset hmem)

/-! ## The options of a list -/

namespace Options

variable {texts : List CString} {item : Item} {list : List Item}

/-- An option has the same value with a carriage return behind the value it is given. -/
def SameValue (texts : List CString) (item : Item) : Prop :=
  ∀ rest ∈ given texts item.key, KeepsReturn rest →
    valueIndex item.values (some (cutValue rest ++ ['\r'])) =
      valueIndex item.values (some (cutValue rest))

namespace OptionList

theorem lastGiven_cons (cfg : CString) (texts : List CString) (key : CString) :
    lastGiven (cfg :: texts) key = (lastGiven texts key).or (found cfg key).text := by
  unfold lastGiven
  rw [List.reverse_cons, List.findSome?_append]
  simp

theorem lastGiven_eq (h : ∀ cfg ∈ texts, (Config.getValue cfg key).isSome) :
    lastGiven texts key = (given texts key).map cutValue := by
  induction texts with
  | nil => rfl
  | cons cfg texts ih =>
      rw [List.forall_mem_cons] at h
      obtain ⟨f, hf⟩ := Option.isSome_iff_exists.mp h.1
      have htext : (found cfg key).text = (valueIn key equals 0 cfg).map cutValue := by
        rw [found, hf]
        exact getValue_text hf
      rw [lastGiven_cons, given_cons, ih h.2, htext]
      cases given texts key <;> rfl

theorem lastGiven_crlf (hkey : InLine key)
    (h : ∀ cfg ∈ texts, (Config.getValue cfg key).isSome) :
    lastGiven (texts.map crlf) key = (given texts key).map fun rest => cutValue (crlf rest) := by
  induction texts with
  | nil => rfl
  | cons cfg texts ih =>
      rw [List.forall_mem_cons] at h
      obtain ⟨f, hf⟩ := Option.isSome_iff_exists.mp h.1
      have htext : (found (crlf cfg) key).text =
          (valueIn key equals 0 cfg).map fun rest => cutValue (crlf rest) := by
        rw [found, getValue_crlf hkey, hf]
        rfl
      rw [List.map_cons, lastGiven_cons, given_cons, ih h.2, htext]
      cases given texts key <;> rfl

theorem marked_crlf (hkey : InLine key) (cfg : CString) :
    (found (crlf cfg) key).marked = (found cfg key).marked := by
  rw [found, found, getValue_crlf hkey]
  cases Config.getValue cfg key <;> rfl

/-- The options can be looked for in both kinds of texts or in neither. -/
theorem searchable_crlf (hkeys : ∀ item ∈ list, InLine item.key) :
    (∀ cfg ∈ texts.map crlf, Searchable cfg list) ↔ ∀ cfg ∈ texts, Searchable cfg list := by
  rw [List.forall_mem_map]
  refine forall₂_congr fun cfg _ => forall₂_congr fun item hitem => ?_
  rw [getValue_crlf (hkeys item hitem), Option.isSome_map]

/-- An option is hidden by both texts or none, and takes another value only from a carriage
return that its values tell. -/
theorem takeAll_crlf (hkey : InLine item.key) (htexts : ∀ cfg ∈ texts, '\r' ∉ cfg)
    (h : ∀ cfg ∈ texts, (Config.getValue cfg item.key).isSome) (first : Bool) :
    takeAll (texts.map crlf) first item = takeAll texts first item ↔
      (first = true → SameValue texts item) := by
  have hmarks : (texts.map crlf).any (fun cfg => (found cfg item.key).marked) =
      texts.any fun cfg => (found cfg item.key).marked := by
    rw [List.any_map]
    exact congrArg (List.any texts) (funext fun cfg => marked_crlf hkey cfg)
  rw [takeAll_eq, takeAll_eq, hmarks, Item.mk.injEq]
  simp only [true_and, and_true]
  cases first with
  | false => simp
  | true =>
      rw [if_pos rfl, if_pos rfl, lastGiven_crlf hkey h, lastGiven_eq h, SameValue]
      cases hgiven : given texts item.key with
      | none => simp
      | some rest =>
          have hcut := cutValue_crlf (notMem_given htexts hgiven)
          simp only [Option.map_some, Option.elim_some, Option.mem_def, Option.some.injEq,
            forall_eq', forall_const, hcut]
          by_cases hkeeps : KeepsReturn rest
          · simp only [hkeeps, if_true, forall_const]
          · simp only [hkeeps, if_false, false_implies]

theorem readAll_crlf (hkeys : ∀ item ∈ list, InLine item.key) (htexts : ∀ cfg ∈ texts, '\r' ∉ cfg)
    (h : ∀ cfg ∈ texts, Searchable cfg list) :
    (texts.map crlf).foldlM (fun list cfg => read cfg list) list =
        texts.foldlM (fun list cfg => read cfg list) list ↔
      ∀ i item, list[i]? = some item → isFirst list i item = true → SameValue texts item := by
  have hcrlf := (searchable_crlf hkeys).mpr h
  rw [readAll_eq hcrlf, readAll_eq h, Option.some.injEq, List.ext_getElem?_iff]
  refine forall_congr' fun i => ?_
  rw [List.getElem?_mapIdx, List.getElem?_mapIdx]
  cases hi : list[i]? with
  | none => simp
  | some item =>
      have hmem := List.mem_of_getElem? hi
      have hitem := takeAll_crlf (hkeys item hmem) htexts (fun cfg hcfg => h cfg hcfg item hmem)
        (isFirst list i item)
      simp only [Option.map_some, Option.some.injEq, forall_eq', hitem]

end OptionList

end Options

end DarkUI.Minarch
