import P2PRdt.Lib.SortedCodes
import Mathlib.Data.String.Basic
import Mathlib.Logic.Function.Basic

/-!
# Key and button codes

The keyboard and the mouse-button tables of the action mapping and the two
halves of the codec that go through them: a list of names becomes a sorted
row of codes, and a row of codes becomes a sorted list of names. `KeyMap`
carries the proof that a table and its reverse map are inverse to each other,
so that the round trip is proved once for both.
-/

namespace P2PRdt.Data

open Lib

/-! ## The tables -/

/-- A dictionary from names to codes; `none` is a name that is known and
ignored. -/
abbrev KeyTable := List (String × Option ℕ)

def universalAutogressiveKeyboardEncodingMap : KeyTable :=
  [("F1", none), ("F2", none), ("F3", none), ("F4", none), ("F5", none), ("F6", none),
   ("F7", none), ("F8", none), ("F9", none), ("F10", none), ("F11", none), ("F12", none),
   ("F20", none), ("PrintScreen", none), ("Pause", none), ("Equal", none), ("Semicolon", none),
   ("LeftBracket", none), ("RightBracket", none), ("LeftWin", none), ("End", none),
   ("Subtract", none), ("Menu", none), ("Period", none), ("Comma", none), ("LeftAlt", none),
   ("RightAlt", none), ("LeftControl", none), ("RightControl", none), ("Delete", none),
   ("Add", none), ("Decimal", none), ("Minus", none), ("PageDown", none), ("PageUp", none),
   ("Home", none), ("CapsLock", none), ("Backslash", none), ("Multiply", none),
   ("GraveAccent", none), ("RightWin", none), ("ScrollLock", none), ("NumLock", none),
   ("Apostrophe", none), ("Insert", none), ("Divide", none), ("Escape", none), ("Tab", none),
   ("Enter", none), ("BackQuote", none), ("Slash", none), ("Backspace", none),
   ("VolumeMute", none), ("VolumeDown", none), ("VolumeUp", none), ("0", none), ("5", none),
   ("6", none), ("7", none), ("8", none), ("9", none), ("b", none), ("c", none), ("g", none),
   ("h", none), ("i", none), ("j", none), ("k", none), ("l", none), ("m", none), ("n", none),
   ("o", none), ("p", none), ("r", none), ("t", none), ("u", none), ("v", none), ("x", none),
   ("y", none), ("_no_key", some 0), ("Space", some 1), ("1", some 2), ("2", some 3),
   ("3", some 4), ("4", some 5), ("a", some 6), ("d", some 7), ("e", some 8), ("f", some 9),
   ("q", some 10), ("w", some 11), ("s", some 12), ("z", some 13), ("DownArrow", some 14),
   ("UpArrow", some 15), ("LeftArrow", some 16), ("RightArrow", some 17),
   ("LeftShift", some 18), ("RightShift", some 19)]

def mouseKeyActionMapping : KeyTable :=
  [("_no_button", some 0), ("0", some 1), ("1", some 2), ("2", some 3)]

namespace KeyTable

/-- `table[k]`, and `none` also for a name that is not in the table. -/
def code (table : KeyTable) (k : String) : Option ℕ := (table.lookup k).join

/-! ## _setup_reverse_map -/

/-- One turn of the loop over the keyboard table: of two names of a code the
shorter one stays, and the earlier one of two equally short ones. -/
def reverseStep (m : ℕ → Option String) : String × Option ℕ → ℕ → Option String
  | (_, none) => m
  | (k, some v) =>
      match m v with
      | some old => if k.length < old.length then Function.update m v (some k) else m
      | none => Function.update m v (some k)

def keyboardReverseMap (table : KeyTable) : ℕ → Option String :=
  table.foldl reverseStep fun _ => none

/-- The loop over the mouse table raises on a second name for a code. -/
def mouseReverseStep (m : Option ℕ → Option String) (kv : String × Option ℕ) :
    Option (Option ℕ → Option String) :=
  match m kv.2 with
  | some _ => none
  | none => some (Function.update m kv.2 (some kv.1))

def mouseReverseMap (table : KeyTable) : Option (Option ℕ → Option String) :=
  table.foldlM mouseReverseStep fun _ => none

theorem mem_of_code {table : KeyTable} {k : String} {c : ℕ} (h : table.code k = some c) :
    (k, some c) ∈ table := by
  unfold code at h
  rcases hl : table.lookup k with _ | v
  · rw [hl] at h
    cases h
  · rw [hl] at h
    obtain rfl : v = some c := h
    obtain ⟨l₁, l₂, rfl, -⟩ := List.lookup_eq_some_iff.mp hl
    exact List.mem_append_right _ (List.mem_cons_self ..)

theorem code_of_mem {table : KeyTable} (hnd : (table.map Prod.fst).Nodup) {k : String} {c : ℕ}
    (h : (k, some c) ∈ table) : table.code k = some c := by
  unfold code
  induction table with
  | nil => cases h
  | cons kv table ih =>
      rw [List.map_cons, List.nodup_cons] at hnd
      rcases List.mem_cons.mp h with rfl | h
      · rw [List.lookup_cons_self]
        rfl
      · have hne : k ≠ kv.1 := by
          rintro rfl
          exact hnd.1 (List.mem_map.mpr ⟨_, h, rfl⟩)
        rw [List.lookup_cons, beq_eq_false_iff_ne.mpr hne]
        exact ih hnd.2 h

theorem update_some {β : Type*} [DecidableEq β] {m : β → Option String} {v c : β}
    {k k' : String} (h : Function.update m v (some k') c = some k) :
    m c = some k ∨ (k', v) = (k, c) := by
  by_cases hcv : c = v
  · subst hcv
    rw [Function.update_self] at h
    exact .inr (by rw [Option.some.inj h])
  · rw [Function.update_of_ne hcv] at h
    exact .inl h

theorem reverseStep_some {m : ℕ → Option String} {kv : String × Option ℕ} {c : ℕ} {k : String}
    (h : reverseStep m kv c = some k) : m c = some k ∨ kv = (k, some c) := by
  rcases kv with ⟨k', _ | v⟩
  · exact .inl h
  · have hupdate : Function.update m v (some k') c = some k →
        m c = some k ∨ (k', some v) = (k, some c) := by
      intro hu
      rcases update_some hu with hm | he
      · exact .inl hm
      · right
        rw [Prod.mk.injEq] at he ⊢
        exact ⟨he.1, congrArg some he.2⟩
    rcases hv : m v with _ | old
    · simp only [reverseStep, hv] at h
      exact hupdate h
    · simp only [reverseStep, hv] at h
      split at h
      · exact hupdate h
      · exact .inl h

/-- Every entry of a reverse map comes from the table. -/
theorem mem_of_keyboardReverse {table : KeyTable} {c : ℕ} {k : String}
    (h : table.keyboardReverseMap c = some k) : (k, some c) ∈ table := by
  suffices hgen : ∀ m : ℕ → Option String, table.foldl reverseStep m c = some k →
      m c = some k ∨ (k, some c) ∈ table by
    rcases hgen _ h with h | h
    · cases h
    · exact h
  clear h
  induction table with
  | nil => exact fun m h => .inl h
  | cons kv table ih =>
      intro m h
      rcases ih _ h with h | h
      · rcases reverseStep_some h with hm | rfl
        · exact .inl hm
        · exact .inr (List.mem_cons_self ..)
      · exact .inr (List.mem_cons_of_mem _ h)

theorem mem_of_mouseReverse {table : KeyTable} {m' : Option ℕ → Option String} {v : Option ℕ}
    {k : String} (hm : table.mouseReverseMap = some m') (h : m' v = some k) :
    (k, v) ∈ table := by
  suffices hgen : ∀ m : Option ℕ → Option String, table.foldlM mouseReverseStep m = some m' →
      m v = some k ∨ (k, v) ∈ table by
    rcases hgen _ hm with h | h
    · cases h
    · exact h
  clear hm
  induction table with
  | nil =>
      intro m hm
      obtain rfl : m = m' := Option.some.inj hm
      exact .inl h
  | cons kv table ih =>
      intro m hm
      rw [List.foldlM_cons] at hm
      obtain ⟨m₁, hstep, hrest⟩ := Option.bind_eq_some_iff.mp hm
      rcases ih m₁ hrest with h₁ | hmem
      · unfold mouseReverseStep at hstep
        split at hstep
        · cases hstep
        · obtain rfl := Option.some.inj hstep
          rcases update_some h₁ with hm | he
          · exact .inl hm
          · obtain rfl : kv = (k, v) := he
            exact .inr (List.mem_cons_self ..)
      · exact .inr (List.mem_cons_of_mem _ hmem)

end KeyTable

/-! ## Tables with their reverse maps -/

/-- A table together with the reverse map that `__init__` builds from it. The
two are inverse to each other, and `blank` is the name of code 0. -/
structure KeyMap where
  table : KeyTable
  reverse : ℕ → Option String
  blank : String
  reverse_iff : ∀ c k, reverse c = some k ↔ table.code k = some c
  blank_code : table.code blank = some 0

/-- A reverse map whose entries all come from the table, and which has all
entries of the table, is inverse to it. -/
theorem KeyTable.reverse_iff {table : KeyTable} {reverse : ℕ → Option String}
    (hnd : (table.map Prod.fst).Nodup)
    (hmem : ∀ c k, reverse c = some k → (k, some c) ∈ table)
    (hall : ∀ kv ∈ table, kv.2.all fun c => reverse c = some kv.1) (c : ℕ) (k : String) :
    reverse c = some k ↔ table.code k = some c := by
  constructor
  · exact fun h => code_of_mem hnd (hmem c k h)
  · exact fun h => by simpa using hall _ (mem_of_code h)

def keyboardMap : KeyMap where
  table := universalAutogressiveKeyboardEncodingMap
  reverse := universalAutogressiveKeyboardEncodingMap.keyboardReverseMap
  blank := "_no_key"
  reverse_iff := KeyTable.reverse_iff (by decide +kernel)
    (fun _ _ => KeyTable.mem_of_keyboardReverse) (by decide +kernel)
  blank_code := by decide +kernel

def mouseMap : KeyMap where
  table := mouseKeyActionMapping
  reverse := fun c => mouseKeyActionMapping.mouseReverseMap.bind fun m => m (some c)
  blank := "_no_button"
  reverse_iff := by
    refine KeyTable.reverse_iff (by decide +kernel) (fun c k h => ?_) (by decide +kernel)
    obtain ⟨m, hm, hk⟩ := Option.bind_eq_some_iff.mp h
    exact KeyTable.mem_of_mouseReverse hm hk
  blank_code := by decide +kernel

namespace KeyMap

/-! ## The two halves of the codec -/

/-- The set of codes that `action_to_tensor` collects. -/
def codes (m : KeyMap) (names : List String) : Finset ℕ :=
  (names.filterMap m.table.code).toFinset

/-- The row of `action_to_tensor`: sorted, truncated or padded with 0. -/
def encode (m : KeyMap) (n : ℕ) (names : List String) : List ℕ := sortedRow 0 n (m.codes names)

/-- The names of `tensor_to_action`; `none` is the shape assert or a `KeyError`. -/
def decode (m : KeyMap) (n : ℕ) (row : List ℕ) : Option (List String) :=
  if row.length = n then
    (row.mapM m.reverse).map fun names =>
      (names.filter (· ≠ m.blank)).toFinset.sort (· ≤ ·)
  else none

variable {m : KeyMap} {names : List String} {n c : ℕ} {k : String}

@[simp] theorem length_encode (m : KeyMap) (n : ℕ) (names : List String) :
    (m.encode n names).length = n :=
  length_sortedRow _ _ _

theorem mem_codes : c ∈ m.codes names ↔ ∃ k ∈ names, m.table.code k = some c := by
  rw [codes, List.mem_toFinset, List.mem_filterMap]

/-- A code has one name. -/
theorem code_inj {k' : String} (h : m.table.code k = some c) (h' : m.table.code k' = some c) :
    k = k' := by
  rw [← m.reverse_iff] at h h'
  exact Option.some.inj (h.symm.trans h')

theorem zero_notMem_codes (hb : m.blank ∉ names) : 0 ∉ m.codes names := by
  intro hz
  obtain ⟨k, hk, hc⟩ := mem_codes.mp hz
  exact hb (code_inj m.blank_code hc ▸ hk)

theorem mapM_reverse {f : ℕ → Option String} {row : List ℕ}
    (h : ∀ c ∈ row, ∃ k, f c = some k) :
    ∃ names, row.mapM f = some names ∧ ∀ k, k ∈ names ↔ ∃ c ∈ row, f c = some k := by
  induction row with
  | nil => exact ⟨[], rfl, by simp⟩
  | cons c row ih =>
      obtain ⟨k₀, hk₀⟩ := h c (List.mem_cons_self ..)
      obtain ⟨names, hmap, hmem⟩ := ih fun c' hc' => h c' (List.mem_cons_of_mem _ hc')
      refine ⟨k₀ :: names, ?_, fun k => ?_⟩
      · rw [List.mapM_cons, hk₀, hmap]
        rfl
      · rw [List.mem_cons, hmem]
        constructor
        · rintro (rfl | ⟨c', hc', hf⟩)
          · exact ⟨c, List.mem_cons_self .., hk₀⟩
          · exact ⟨c', List.mem_cons_of_mem _ hc', hf⟩
        · rintro ⟨c', hc', hf⟩
          rcases List.mem_cons.mp hc' with rfl | hc'
          · exact .inl (Option.some.inj (hf.symm.trans hk₀))
          · exact .inr ⟨c', hc', hf⟩

/-- Decoding an encoded row gives the names of the smallest codes, sorted and
without duplicates. -/
theorem decode_encode (hb : m.blank ∉ names) (n : ℕ) :
    ∃ names', m.decode n (m.encode n names) = some names' ∧ names'.Pairwise (· < ·) ∧
      ∀ k, k ∈ names' ↔ ∃ c ∈ smallest n (m.codes names), m.table.code k = some c := by
  have hrow : ∀ c ∈ m.encode n names, ∃ k, m.reverse c = some k := by
    intro c hc
    rcases mem_of_mem_sortedRow hc with rfl | hc
    · exact ⟨_, (m.reverse_iff _ _).mpr m.blank_code⟩
    · obtain ⟨k, -, hk⟩ := mem_codes.mp hc
      exact ⟨k, (m.reverse_iff _ _).mpr hk⟩
  obtain ⟨decoded, hmap, hmem⟩ := mapM_reverse hrow
  refine ⟨(decoded.filter (· ≠ m.blank)).toFinset.sort (· ≤ ·), ?_,
    (Finset.sortedLT_sort _).pairwise, fun k => ?_⟩
  · rw [decode, if_pos (m.length_encode n names), hmap]
    rfl
  · have hne : ∀ c, m.table.code k = some c → (k ≠ m.blank ↔ c ≠ 0) := by
      intro c hc
      rw [not_iff_not]
      constructor
      · rintro rfl
        exact Option.some.inj (hc.symm.trans m.blank_code)
      · rintro rfl
        exact code_inj hc m.blank_code
    rw [Finset.mem_sort, List.mem_toFinset, List.mem_filter, hmem, decide_eq_true_eq]
    constructor
    · rintro ⟨⟨c, hc, hrev⟩, hk⟩
      have hcode := (m.reverse_iff _ _).mp hrev
      exact ⟨c, (mem_sortedRow ((hne c hcode).mp hk)).mp hc, hcode⟩
    · rintro ⟨c, hc, hcode⟩
      have hc0 : c ≠ 0 := by
        rintro rfl
        exact zero_notMem_codes hb (smallest_subset _ _ hc)
      exact ⟨⟨c, (mem_sortedRow hc0).mpr hc, (m.reverse_iff _ _).mpr hcode⟩,
        (hne c hcode).mpr hc0⟩

/-- Names whose codes are the smallest codes of `names` have the same row. -/
theorem encode_eq {names' : List String}
    (h : ∀ k, k ∈ names' ↔ ∃ c ∈ smallest n (m.codes names), m.table.code k = some c) :
    m.encode n names' = m.encode n names := by
  have hcodes : m.codes names' = smallest n (m.codes names) := by
    ext c
    rw [mem_codes]
    constructor
    · rintro ⟨k, hk, hc⟩
      obtain ⟨c', hc', hk'⟩ := (h k).mp hk
      obtain rfl : c' = c := Option.some.inj (hk'.symm.trans hc)
      exact hc'
    · intro hc
      obtain ⟨k, -, hk⟩ := mem_codes.mp (smallest_subset _ _ hc)
      exact ⟨k, (h k).mpr ⟨c, hc, hk⟩, hk⟩
  rw [encode, hcodes, sortedRow_smallest]
  rfl

theorem length_le_of_mem_iff {names' : List String} (hnd : names'.Pairwise (· < ·))
    (h : ∀ k, k ∈ names' ↔ ∃ c ∈ smallest n (m.codes names), m.table.code k = some c) :
    names'.length ≤ n := by
  have hcode : ∀ k ∈ names', ∃ c ∈ smallest n (m.codes names), m.table.code k = some c :=
    fun k hk => (h k).mp hk
  choose! f hf hcf using hcode
  have hinj : Set.InjOn f (names'.toFinset : Set String) := by
    intro k hk k' hk' he
    have hmem : k ∈ names' := by simpa using hk
    have hmem' : k' ∈ names' := by simpa using hk'
    exact code_inj (hcf k hmem) (he ▸ hcf k' hmem')
  calc names'.length
      = names'.toFinset.card :=
        (List.toFinset_card_of_nodup (hnd.imp fun hlt => hlt.ne)).symm
    _ ≤ (smallest n (m.codes names)).card :=
        Finset.card_le_card_of_injOn f (fun k hk => hf k (by simpa using hk)) hinj
    _ ≤ n := card_smallest_le n _

/-- The smallest codes, said of the names. -/
theorem mem_names_iff :
    (∃ c ∈ smallest n (m.codes names), m.table.code k = some c) ↔
      k ∈ names ∧ ∃ c, m.table.code k = some c ∧
        ((m.codes names).filter (· < c)).card < n := by
  constructor
  · rintro ⟨c, hc, hk⟩
    obtain ⟨hmem, hcard⟩ := mem_smallest.mp hc
    obtain ⟨k', hk', hcode⟩ := mem_codes.mp hmem
    exact ⟨code_inj hk hcode ▸ hk', c, hk, hcard⟩
  · rintro ⟨hmem, c, hk, hcard⟩
    exact ⟨c, mem_smallest.mpr ⟨mem_codes.mpr ⟨k, hmem, hk⟩, hcard⟩, hk⟩

/-- The row depends only on the set of names that have a code. -/
theorem encode_congr {names' : List String}
    (h : ∀ k, (m.table.code k).isSome → (k ∈ names ↔ k ∈ names')) :
    m.encode n names = m.encode n names' := by
  have hcodes : m.codes names = m.codes names' := by
    ext c
    rw [mem_codes, mem_codes]
    constructor
    · rintro ⟨k, hk, hc⟩
      exact ⟨k, (h k (hc ▸ rfl)).mp hk, hc⟩
    · rintro ⟨k, hk, hc⟩
      exact ⟨k, (h k (hc ▸ rfl)).mpr hk, hc⟩
  rw [encode, encode, hcodes]

end KeyMap

end P2PRdt.Data
