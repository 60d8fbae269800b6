import DarkUI.Foundation.Heaviest
import DarkUI.Wifi.Scan

/-! # The networks that are listed

When the list is what the rows of the output make of it: one network for each SSID, with the
strongest signal. What is stored of a long SSID is not found again, and nothing is read once the
list is full.
-/

namespace DarkUI.Wifi

open Text FixedPoint

/-- The rows that have an SSID. -/
def named (rows : List Row) : List Row := rows.filter fun row => row.ssid ≠ []

/-- The rows up to the one that brings the last of as many names as there may be networks, after
those names that were seen before. -/
def readRows (seen : List CString) : List Row → List Row
  | [] => []
  | row :: rest =>
      if seen.length < wifiMaxNetworks then
        row :: readRows
          (if row.ssid = [] ∨ row.stored ∈ seen then seen else row.stored :: seen) rest
      else []

/-- The SSID is longer than what is stored of it. -/
def Row.IsLong (row : Row) : Prop := wifiSsidLen ≤ row.ssid.length

/-- No long SSID comes after a row of which the same is stored. -/
def Apart (rows : List Row) : Prop :=
  ∀ before row after, rows = before ++ row :: after → row.IsLong →
    ∀ earlier ∈ before, earlier.stored ≠ row.stored

/-- The networks of the rows: of all that have one stored name the first of the strongest. -/
def kept (rows : List Row) : List Row := Heaviest.keep Row.stored Row.signal rows

variable {rows rest : List Row} {row : Row} {networks networks' : List Network}
  {seen : List CString}

theorem stored_of_short (h : ¬ row.IsLong) : row.stored = row.ssid :=
  bounded_of_lt (not_le.mp h)

theorem length_stored_lt (row : Row) : row.stored.length < wifiSsidLen := by
  rw [Row.stored, bounded, List.length_take]
  exact lt_of_le_of_lt (min_le_left _ _) (by decide)

/-- A long SSID is not found among the stored names. -/
theorem exactMatch_stored (other row : Row) :
    exactMatch other.stored row.ssid = true ↔ other.stored = row.stored ∧ ¬ row.IsLong := by
  rw [exactMatch, beq_iff_eq]
  constructor
  · intro h
    have hshort : ¬ row.IsLong := by
      rw [Row.IsLong, ← h]
      exact not_le.mpr (length_stored_lt other)
    exact ⟨h.trans (stored_of_short hshort).symm, hshort⟩
  · rintro ⟨h, hshort⟩
    exact h.trans (stored_of_short hshort)

/-- A row changes the networks as it changes the rows kept, unless a long SSID is taken for a new
one. -/
theorem note_networks (h : row.IsLong → row.stored ∉ rows.map Row.stored) :
    note row (rows.map Row.network) =
      (Heaviest.insert Row.stored Row.signal row rows).map Row.network := by
  induction rows with
  | nil => rfl
  | cons other rest ih =>
      have hrest : row.IsLong → row.stored ∉ rest.map Row.stored := fun hlong hmem =>
        h hlong (List.mem_cons_of_mem _ hmem)
      have hmatch : exactMatch other.network.ssid row.ssid = true ↔ other.stored = row.stored := by
        refine (exactMatch_stored other row).trans (and_iff_left_of_imp fun hsame hlong => ?_)
        exact h hlong (hsame ▸ List.mem_cons_self)
      rw [List.map_cons, note, Heaviest.insert]
      by_cases hsame : other.stored = row.stored
      · rw [if_pos (hmatch.mpr hsame), if_pos hsame]
        by_cases hlt : other.signal < row.signal
        · rw [if_pos (show row.signal > other.network.signal from hlt), if_pos hlt, List.map_cons,
            Row.network, Row.network, ← hsame]
        · rw [if_neg (show ¬ row.signal > other.network.signal from hlt), if_neg hlt, List.map_cons]
      · rw [if_neg (fun hm => hsame (hmatch.mp hm)), if_neg hsame, List.map_cons, ih hrest]

/-- Otherwise it is added under a name that is there already. -/
theorem ssids_note (row : Row) (networks : List Network) :
    (note row networks).map Network.ssid = networks.map Network.ssid ∨
      (note row networks).map Network.ssid = networks.map Network.ssid ++ [row.stored] := by
  induction networks with
  | nil => exact .inr rfl
  | cons network rest ih =>
      unfold note
      split
      · split <;> exact .inl rfl
      · rw [List.map_cons, List.map_cons]
        rcases ih with h | h
        · exact .inl (by rw [h])
        · exact .inr (by rw [h, List.cons_append])

theorem ssids_note_long (hlong : row.IsLong) (rows : List Row) :
    (note row (rows.map Row.network)).map Network.ssid =
      rows.map Row.stored ++ [row.stored] := by
  induction rows with
  | nil => rfl
  | cons other rest ih =>
      have hno : ¬ exactMatch other.network.ssid row.ssid = true := fun hmatch =>
        ((exactMatch_stored other row).mp hmatch).2 hlong
      rw [List.map_cons, note, if_neg hno, List.map_cons, ih]
      rfl

/-- No name is lost while the rest is read. -/
theorem ssids_collect (h : collect rest networks = some networks') :
    networks.map Network.ssid <+: networks'.map Network.ssid := by
  induction rest generalizing networks with
  | nil =>
      cases h
      exact List.prefix_rfl
  | cons row rest ih =>
      unfold collect at h
      split at h
      next =>
        split at h
        next =>
          refine List.IsPrefix.trans ?_ (ih h)
          split
          next => exact List.prefix_rfl
          next =>
            rcases ssids_note row networks with hsame | hmore
            · rw [hsame]
            · exact hmore ▸ List.prefix_append _ _
        next => cases h
      next =>
        cases h
        exact List.prefix_rfl

theorem map_ssid_network (rows : List Row) :
    (rows.map Row.network).map Network.ssid = rows.map Row.stored :=
  List.map_map

theorem stored_mem_kept {name : CString} :
    name ∈ (kept rows).map Row.stored ↔ name ∈ rows.map Row.stored :=
  Heaviest.mem_keys_keep

theorem kept_concat (rows : List Row) (row : Row) :
    kept (rows ++ [row]) = Heaviest.insert Row.stored Row.signal row (kept rows) :=
  Heaviest.keep_concat rows row

/-- One more row, read as it should be. -/
theorem note_kept (h : row.IsLong → row.stored ∉ rows.map Row.stored) :
    note row ((kept rows).map Row.network) = (kept (rows ++ [row])).map Row.network := by
  rw [note_networks fun hlong hmem => h hlong (stored_mem_kept.mp hmem), kept_concat]

theorem seen_concat (hseen : seen.Perm ((kept rows).map Row.stored)) (row : Row) :
    (if row.stored ∈ seen then seen else row.stored :: seen).Perm
      ((kept (rows ++ [row])).map Row.stored) := by
  rw [kept_concat]
  split
  next hmem =>
    rwa [Heaviest.keys_insert_of_mem (hseen.mem_iff.mp hmem)]
  next hmem =>
    rw [Heaviest.insert_of_not_mem fun h => hmem (hseen.mem_iff.mpr h), List.map_append,
      List.map_singleton]
    exact (hseen.cons row.stored).trans (List.perm_append_singleton _ _).symm

theorem apart_concat : Apart (rows ++ [row]) ↔
    Apart rows ∧ (row.IsLong → row.stored ∉ rows.map Row.stored) := by
  constructor
  · intro h
    refine ⟨fun before other after heq hlong => ?_, fun hlong hmem => ?_⟩
    · exact h before other (after ++ [row]) (by rw [heq]; simp) hlong
    · obtain ⟨earlier, hearlier, hsame⟩ := List.mem_map.mp hmem
      exact h rows row [] rfl hlong earlier hearlier hsame
  · rintro ⟨hrows, hrow⟩ before other after heq hlong earlier hearlier hsame
    rcases List.eq_nil_or_concat after with rfl | ⟨after', last, rfl⟩
    · obtain ⟨rfl, hlast⟩ := List.append_inj' heq rfl
      cases hlast
      exact hrow hlong (List.mem_map.mpr ⟨earlier, hearlier, hsame⟩)
    · rw [List.concat_eq_append, ← List.cons_append, ← List.append_assoc] at heq
      obtain ⟨rfl, -⟩ := List.append_inj' heq rfl
      exact hrows before other after' rfl hlong earlier hearlier hsame

theorem Apart.left (h : Apart (rows ++ rest)) : Apart rows := fun before other after heq =>
  h before other (after ++ rest) (by rw [heq]; simp)

theorem named_cons (row : Row) (rest : List Row) :
    named (row :: rest) = if row.ssid = [] then named rest else row :: named rest := by
  unfold named
  rw [List.filter_cons]
  by_cases hempty : row.ssid = [] <;> simp [hempty]

/-- What is read of the rows from the first one on, while there is room. -/
theorem readRows_empty (hroom : seen.length < wifiMaxNetworks) (hempty : row.ssid = []) :
    readRows seen (row :: rest) = row :: readRows seen rest := by
  rw [readRows, if_pos hroom, if_pos (.inl hempty)]

theorem readRows_named (hroom : seen.length < wifiMaxNetworks) (hne : row.ssid ≠ []) :
    readRows seen (row :: rest) =
      row :: readRows (if row.stored ∈ seen then seen else row.stored :: seen) rest := by
  rw [readRows, if_pos hroom]
  exact congrArg (fun seen => row :: readRows seen rest) (if_congr (or_iff_right hne) rfl rfl)

theorem readRows_full (hfull : ¬ seen.length < wifiMaxNetworks) : readRows seen rest = [] := by
  cases rest with
  | nil => rfl
  | cons row rest => rw [readRows, if_neg hfull]

theorem collect_cons (hroom : networks.length < wifiMaxNetworks) (hint : IsInt row.signal) :
    collect (row :: rest) networks =
      collect rest (if row.ssid = [] then networks else note row networks) := by
  rw [collect, if_pos hroom, if_pos hint]

theorem collect_full (hfull : ¬ networks.length < wifiMaxNetworks) :
    collect rest networks = some networks := by
  cases rest with
  | nil => rfl
  | cons row rest => rw [collect, if_neg hfull]

/-- Rows that are apart are read into one network for each name. -/
theorem collect_of_apart (rows : List Row) (hseen : seen.Perm ((kept rows).map Row.stored))
    (hints : ∀ row ∈ readRows seen rest, IsInt row.signal)
    (hapart : Apart (rows ++ named (readRows seen rest))) :
    collect rest ((kept rows).map Row.network) =
      some ((kept (rows ++ named (readRows seen rest))).map Row.network) := by
  induction rest generalizing rows seen with
  | nil => rw [collect, readRows, named, List.filter_nil, List.append_nil]
  | cons row rest ih =>
      have hlength : ((kept rows).map Row.network).length = seen.length := by
        rw [hseen.length_eq, List.length_map, List.length_map]
      by_cases hroom : seen.length < wifiMaxNetworks
      · by_cases hempty : row.ssid = []
        · rw [readRows_empty hroom hempty, List.forall_mem_cons] at hints
          rw [readRows_empty hroom hempty, named_cons, if_pos hempty] at hapart ⊢
          rw [collect_cons (hlength.symm ▸ hroom) hints.1, if_pos hempty]
          exact ih rows hseen hints.2 hapart
        · rw [readRows_named hroom hempty, List.forall_mem_cons] at hints
          rw [readRows_named hroom hempty, named_cons, if_neg hempty, List.append_cons] at hapart ⊢
          rw [collect_cons (hlength.symm ▸ hroom) hints.1, if_neg hempty,
            note_kept (apart_concat.mp hapart.left).2]
          exact ih (rows ++ [row]) (seen_concat hseen row) hints.2 hapart
      · rw [readRows_full hroom, collect_full (hlength.symm ▸ hroom), named, List.filter_nil,
          List.append_nil]

/-- Where a long SSID comes after its stored name, the name is listed twice. -/
theorem apart_of_collect (rows : List Row) (hseen : seen.Perm ((kept rows).map Row.stored))
    (hrows : Apart rows)
    (hcollect : collect rest ((kept rows).map Row.network) = some networks)
    (hnodup : (networks.map Network.ssid).Nodup) :
    (∀ row ∈ readRows seen rest, IsInt row.signal) ∧
      Apart (rows ++ named (readRows seen rest)) := by
  induction rest generalizing rows seen with
  | nil =>
      rw [readRows, named, List.filter_nil, List.append_nil]
      exact ⟨fun row hrow => (nomatch hrow), hrows⟩
  | cons row rest ih =>
      have hlength : ((kept rows).map Row.network).length = seen.length := by
        rw [hseen.length_eq, List.length_map, List.length_map]
      by_cases hroom : seen.length < wifiMaxNetworks
      · -- a level that is no `int` leaves nothing defined
        have hint : IsInt row.signal := by
          by_contra hnot
          rw [collect, if_pos (hlength.symm ▸ hroom), if_neg hnot] at hcollect
          cases hcollect
        rw [collect_cons (hlength.symm ▸ hroom) hint] at hcollect
        by_cases hempty : row.ssid = []
        · rw [if_pos hempty] at hcollect
          rw [readRows_empty hroom hempty, List.forall_mem_cons, named_cons, if_pos hempty]
          obtain ⟨hints, hapart⟩ := ih rows hseen hrows hcollect
          exact ⟨⟨hint, hints⟩, hapart⟩
        · rw [if_neg hempty] at hcollect
          -- the name would be listed a second time
          have hnew : row.IsLong → row.stored ∉ rows.map Row.stored := by
            intro hlong hmem
            have hprefix := (ssids_collect hcollect).sublist
            rw [ssids_note_long hlong, ← List.concat_eq_append] at hprefix
            exact ((List.nodup_concat _ _).mp (hnodup.sublist hprefix)).1
              (stored_mem_kept.mpr hmem)
          rw [note_kept hnew] at hcollect
          rw [readRows_named hroom hempty, List.forall_mem_cons, named_cons, if_neg hempty,
            List.append_cons]
          obtain ⟨hints, hapart⟩ :=
            ih (rows ++ [row]) (seen_concat hseen row) (apart_concat.mpr ⟨hrows, hnew⟩) hcollect
          exact ⟨⟨hint, hints⟩, hapart⟩
      · rw [readRows_full hroom, named, List.filter_nil, List.append_nil]
        exact ⟨fun row hrow => (nomatch hrow), hrows⟩

/-- The networks are what the rows make of them: sorted, no SSID twice, each with the strongest
signal of its rows and that row's flag, and none is missing unless the list is full of others that
are as strong. -/
structure Listing (rows : List Row) (networks : List Network) : Prop where
  distinct : (networks.map Network.ssid).Nodup
  sorted : networks.Pairwise fun a b => b.signal ≤ a.signal
  strongest : ∀ network ∈ networks, ∃ row ∈ rows, row.ssid = network.ssid ∧
    row.signal = network.signal ∧ row.isOpen = network.isOpen ∧
      ∀ other ∈ rows, other.ssid = network.ssid → other.signal ≤ network.signal
  complete : ∀ row ∈ rows, (∃ network ∈ networks, network.ssid = row.ssid) ∨
    networks.length = wifiMaxNetworks ∧ ∀ network ∈ networks, row.signal ≤ network.signal

/-- The first of the strongest rows of each stored name is a row of the SSID that is listed. -/
def Genuine (read rows : List Row) : Prop :=
  ∀ p, Heaviest.Leads Row.stored Row.signal read p →
    ∃ row ∈ rows, row.ssid = p.stored ∧ row.signal = p.signal ∧ row.isOpen = p.isOpen

/-- A row of a listed SSID is no stronger than one that was read. -/
def Listed (read rows : List Row) : Prop :=
  ∀ row ∈ rows, row.ssid ∈ read.map Row.stored →
    ∃ p ∈ read, p.stored = row.ssid ∧ row.signal ≤ p.signal

/-- A row of an SSID that is not listed leaves the list full, and is no stronger than the strongest
row of any name in it. -/
def Full (read rows : List Row) : Prop :=
  ∀ row ∈ rows, row.ssid ∉ read.map Row.stored →
    (read.map Row.stored).dedup.length = wifiMaxNetworks ∧
      ∀ p ∈ read, ∃ q ∈ read, q.stored = p.stored ∧ row.signal ≤ q.signal

/-- No row of its stored name is stronger. -/
def Strongest (read : List Row) (p : Row) : Prop :=
  p ∈ read ∧ ∀ q ∈ read, q.stored = p.stored → q.signal ≤ p.signal

variable {read : List Row}

theorem strongest_of_mem_kept {p : Row} (h : p ∈ kept read) : Strongest read p :=
  ⟨Heaviest.mem_of_mem_keep h, fun _ hq hsame => Heaviest.le_of_mem_keep h hq hsame⟩

/-- A row that is at most as strong as some row of a name is at most as strong as what is kept. -/
theorem le_kept_iff {p : Row} (h : p ∈ kept read) (signal : Int) :
    signal ≤ p.signal ↔ ∃ q ∈ read, q.stored = p.stored ∧ signal ≤ q.signal := by
  constructor
  · exact fun hle => ⟨p, Heaviest.mem_of_mem_keep h, rfl, hle⟩
  · rintro ⟨q, hq, hsame, hle⟩
    exact le_trans hle ((strongest_of_mem_kept h).2 q hq hsame)

theorem exists_kept {name : CString} :
    (∃ p ∈ kept read, p.stored = name) ↔ name ∈ read.map Row.stored := by
  rw [← stored_mem_kept, List.mem_map]

theorem length_kept (read : List Row) :
    (kept read).length = (read.map Row.stored).dedup.length :=
  Heaviest.length_keep read

section Networks

variable (hperm : networks.Perm ((kept read).map Row.network))

include hperm

theorem forall_network_iff {q : Network → Prop} :
    (∀ network ∈ networks, q network) ↔ ∀ p ∈ kept read, q p.network := by
  constructor
  · exact fun h p hp => h _ (hperm.mem_iff.mpr (List.mem_map_of_mem hp))
  · intro h network hnetwork
    obtain ⟨p, hp, rfl⟩ := List.mem_map.mp (hperm.mem_iff.mp hnetwork)
    exact h p hp

theorem exists_network_iff {name : CString} :
    (∃ network ∈ networks, network.ssid = name) ↔ name ∈ read.map Row.stored := by
  rw [← exists_kept]
  constructor
  · rintro ⟨network, hnetwork, rfl⟩
    obtain ⟨p, hp, rfl⟩ := List.mem_map.mp (hperm.mem_iff.mp hnetwork)
    exact ⟨p, hp, rfl⟩
  · rintro ⟨p, hp, rfl⟩
    exact ⟨p.network, hperm.mem_iff.mpr (List.mem_map_of_mem hp), rfl⟩

theorem length_networks : networks.length = (read.map Row.stored).dedup.length := by
  rw [hperm.length_eq, List.length_map, length_kept]

/-- The networks of the rows that were read are a listing of the rows there are. -/
theorem listing_iff (hsorted : networks.Pairwise fun a b => b.signal ≤ a.signal) :
    Listing rows networks ↔ Genuine read rows ∧ Listed read rows ∧ Full read rows := by
  constructor
  · rintro ⟨-, -, hstrongest, hcomplete⟩
    rw [forall_network_iff hperm] at hstrongest
    refine ⟨fun p hp => ?_, fun row hrow hin => ?_, fun row hrow hout => ?_⟩
    · obtain ⟨row, hrow, hssid, hsignal, hopen, -⟩ := hstrongest p (Heaviest.mem_keep.mpr hp)
      exact ⟨row, hrow, hssid, hsignal, hopen⟩
    · obtain ⟨p, hp, hname⟩ := exists_kept.mpr hin
      obtain ⟨-, -, -, -, -, hall⟩ := hstrongest p hp
      exact hname ▸ (le_kept_iff hp row.signal).mp (hall row hrow hname.symm)
    · obtain ⟨hfull, hall⟩ :=
        (hcomplete row hrow).resolve_left fun h => hout ((exists_network_iff hperm).mp h)
      rw [forall_network_iff hperm] at hall
      refine ⟨length_networks hperm ▸ hfull, fun p hp => ?_⟩
      obtain ⟨q, hq, hname⟩ := exists_kept.mpr (List.mem_map_of_mem hp)
      exact hname ▸ (le_kept_iff hq row.signal).mp (hall q hq)
  · rintro ⟨hgenuine, hlisted, hfull⟩
    refine ⟨?_, hsorted, ?_, fun row hrow => ?_⟩
    · rw [(hperm.map Network.ssid).nodup_iff, map_ssid_network]
      exact Heaviest.nodup_keep read
    · rw [forall_network_iff hperm]
      intro p hp
      obtain ⟨row, hrow, hname, hsignal, hopen⟩ := hgenuine p (Heaviest.mem_keep.mp hp)
      refine ⟨row, hrow, hname, hsignal, hopen, fun other hother hsame => ?_⟩
      rw [show p.network.signal = p.signal from rfl, le_kept_iff hp]
      have hstored : other.ssid = p.stored := hsame
      have hin : other.ssid ∈ read.map Row.stored :=
        hstored ▸ exists_kept.mp ⟨p, hp, rfl⟩
      exact hstored ▸ hlisted other hother hin
    · by_cases hin : row.ssid ∈ read.map Row.stored
      · exact .inl ((exists_network_iff hperm).mpr hin)
      · obtain ⟨hcount, hall⟩ := hfull row hrow hin
        refine .inr ⟨(length_networks hperm).trans hcount, ?_⟩
        rw [forall_network_iff hperm]
        exact fun p hp => (le_kept_iff hp row.signal).mpr (hall p (Heaviest.mem_of_mem_keep hp))

end Networks

/-- The signals that `qsort` may compare do not overflow. -/
theorem spread_iff : (∀ a ∈ (kept read).map Row.network, ∀ b ∈ (kept read).map Row.network,
      IsInt (b.signal - a.signal)) ↔
    ∀ p q, Strongest read p → Strongest read q → IsInt (q.signal - p.signal) := by
  have hkept {p : Row} (hp : Strongest read p) : ∃ k ∈ kept read, k.signal = p.signal := by
    obtain ⟨k, hk, hsame, hle⟩ := Heaviest.exists_keep Row.stored Row.signal hp.1
    exact ⟨k, hk, le_antisymm (hp.2 k (Heaviest.mem_of_mem_keep hk) hsame) hle⟩
  constructor
  · intro h p q hp hq
    obtain ⟨k, hk, hkp⟩ := hkept hp
    obtain ⟨l, hl, hlq⟩ := hkept hq
    rw [← hkp, ← hlq]
    exact h k.network (List.mem_map_of_mem hk) l.network (List.mem_map_of_mem hl)
  · intro h a ha b hb
    obtain ⟨p, hp, rfl⟩ := List.mem_map.mp ha
    obtain ⟨q, hq, rfl⟩ := List.mem_map.mp hb
    exact h p q (strongest_of_mem_kept hp) (strongest_of_mem_kept hq)

instance (rank : Network → Nat) : Std.Total (networkLe rank) where
  total a b := by
    unfold networkLe
    omega

instance (rank : Network → Nat) : IsTrans Network (networkLe rank) where
  trans a b c hab hbc := by
    unfold networkLe at *
    omega

/-- The rows of the output, by its whole lines. -/
def rowsOf (output : CString) : List Row := named (rowsRead (output.length + 2) output)

/-- The rows as they are read. -/
def readOf (output : CString) : List Row := named (readRows [] (rowsRead 512 output))

/-- The outputs that are listed as they should be. -/
structure Fits (output : CString) : Prop where
  ints : ∀ row ∈ readRows [] (rowsRead 512 output), IsInt row.signal
  spread : ∀ p q, Strongest (readOf output) p → Strongest (readOf output) q →
    IsInt (q.signal - p.signal)
  apart : Apart (readOf output)
  genuine : Genuine (readOf output) (rowsOf output)
  listed : Listed (readOf output) (rowsOf output)
  full : Full (readOf output) (rowsOf output)

theorem insertionSort_sorted (rank : Network → Nat) (networks : List Network) :
    (networks.insertionSort (networkLe rank)).Pairwise fun a b => b.signal ≤ a.signal := by
  refine (List.pairwise_insertionSort (networkLe rank) networks).imp fun {a b} h => ?_
  unfold networkLe at h
  omega

/-- When the networks are a listing of the rows in the output. -/
theorem scanResults_iff (rank : Network → Nat) (output : CString) :
    (∃ networks, scanResults rank output = some networks ∧ Listing (rowsOf output) networks) ↔
      Fits output := by
  have hseen : ([] : List CString).Perm ((kept []).map Row.stored) := List.Perm.refl _
  constructor
  · rintro ⟨networks, hscan, hlisting⟩
    obtain ⟨collected, hcollect, hsort⟩ := Option.bind_eq_some_iff.mp hscan
    split at hsort
    next hdiffer =>
      cases hsort
      have hperm := List.perm_insertionSort (networkLe rank) collected
      have hnodup : (collected.map Network.ssid).Nodup :=
        (hperm.map Network.ssid).nodup_iff.mp hlisting.distinct
      obtain ⟨hints, hapart⟩ := apart_of_collect [] hseen
        (fun before row after heq => by simp at heq) hcollect hnodup
      have hkept := collect_of_apart [] hseen hints hapart
      cases hcollect.symm.trans hkept
      obtain ⟨hgenuine, hlisted, hfull⟩ :=
        (listing_iff hperm (insertionSort_sorted rank _)).mp hlisting
      exact ⟨hints, spread_iff.mp hdiffer, hapart, hgenuine, hlisted, hfull⟩
    next => cases hsort
  · rintro ⟨hints, hspread, hapart, hgenuine, hlisted, hfull⟩
    have hkept := collect_of_apart [] hseen hints hapart
    have hperm := List.perm_insertionSort (networkLe rank)
      ((kept (readOf output)).map Row.network)
    refine ⟨_, ?_, (listing_iff hperm (insertionSort_sorted rank _)).mpr
      ⟨hgenuine, hlisted, hfull⟩⟩
    have hcollect : collect (rowsRead 512 output) [] =
        some ((kept (readOf output)).map Row.network) := hkept
    rw [scanResults, hcollect, Option.bind_some, if_pos (spread_iff.mpr hspread)]

/-- A network whose name prints in 33 bytes, seen on two channels. -/
def twoChannels : CString :=
  ("bssid / frequency / signal level / flags / ssid\n" ++
    "a\t2412\t-40\t[ESS]\taaaaaaaaaaaaaaaaaaaaaaaaaaaaaaaaa\n" ++
    "b\t5180\t-50\t[ESS]\taaaaaaaaaaaaaaaaaaaaaaaaaaaaaaaaa\n").toList

/-- It is listed twice. -/
theorem scanResults_twice :
    ¬ ∀ (rank : Network → Nat) (output : CString), ∃ networks,
      scanResults rank output = some networks ∧ Listing (rowsOf output) networks := by
  intro h
  obtain ⟨networks, hscan, hlisting⟩ := h (fun _ => 0) twoChannels
  have htwice : (scanResults (fun _ => 0) twoChannels).map (fun l => l.map Network.ssid) =
      some [List.replicate 32 'a', List.replicate 32 'a'] := by
    decide +kernel
  rw [hscan] at htwice
  have hssids : networks.map Network.ssid = [List.replicate 32 'a', List.replicate 32 'a'] :=
    Option.some.inj htwice
  have hdistinct := hlisting.distinct
  rw [hssids] at hdistinct
  simp at hdistinct

end DarkUI.Wifi
