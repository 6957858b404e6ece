import P2PRdt.Data.Shuffler

/-!
# The epochs of a shuffler

The methods of `ShufflerInterface` as whole calls, when every put succeeds:
`addItem` and `finishEpoch` are the pieces of `Data.Shuffler` put together, with
what they send and what the buffer holds meanwhile. The random generator is a
parameter of which only the range of its answers is known.

For `ShuffleBuffer` the epoch law says which item leaves when. The buffer and
the items put so far are always a permutation of the items added so far
(`Filled`), the buffer fills up before anything is put, and `finish_epoch`
empties it.
-/

namespace P2PRdt.Data

variable {κ ρ : Type}

/-- A random generator: `gen_range(0..n)` answers with a number below `n`. -/
structure Rng (ρ : Type) where
  genRange : ρ → ℕ → ℕ × ρ
  genRange_lt : ∀ r n, 0 < n → (genRange r n).1 < n

/-- The methods of `ShufflerInterface`. -/
inductive ShufflerCall (κ : Type) where
  | addItem (item : κ)
  | finishEpoch
deriving DecidableEq, Repr

/-- One finished call: what it has sent, `none` for the end marker, what the
buffer was after each change, and the shuffler that it leaves. -/
structure Called (κ : Type) where
  sent : List (Option κ)
  buffers : List (List κ)
  shuffler : Shuffler κ

namespace Shuffler

/-- `rng.gen_range(0..buffer.len())`; without a buffer nothing is drawn. -/
def draw (R : Rng ρ) (s : Shuffler κ) (r : ρ) : ℕ × ρ :=
  match s with
  | noShuffle _ _ => (0, r)
  | shuffleBuffer buffer _ _ _ => R.genRange r buffer.length

/-- A whole call of `add_item`. An item that is stored costs no draw. -/
def addItemCall (R : Rng ρ) (s : Shuffler κ) (item : κ) (r : ρ) : Option (Called κ × ρ) :=
  let (idx, r') := s.draw R r
  (s.addItem item idx).map fun
    | .stored s' => (⟨[], [s'.buffered], s'⟩, r)
    | .put sampled during after =>
        (⟨[some sampled], [during.buffered, after.buffered], after⟩, r')

/-- The loop of `finish_epoch`: the items that are put and the buffers in
between. It is `none` when the fuel or the range of `gen_range` is empty. -/
def flush (R : Rng ρ) : ℕ → Shuffler κ → ρ → Option (List κ × List (List κ) × Shuffler κ × ρ)
  | 0, _, _ => none
  | fuel + 1, s, r =>
      if s.buffered.isEmpty then some ([], [], s, r)
      else do
        let (idx, r) := s.draw R r
        let (sampled, s) ← s.sample idx
        let (items, buffers, s', r) ← flush R fuel s r
        pure (sampled :: items, s.buffered :: buffers, s', r)

/-- A whole call of `finish_epoch`. -/
def finishEpochCall (R : Rng ρ) (fuel : ℕ) (s : Shuffler κ) (r : ρ) : Option (Called κ × ρ) :=
  (s.flush R fuel r).map fun (items, buffers, s, r) =>
    (⟨items.map some ++ [none], buffers, s.nextEpoch⟩, r)

def call (R : Rng ρ) (fuel : ℕ) (s : Shuffler κ) (r : ρ) : ShufflerCall κ → Option (Called κ × ρ)
  | .addItem item => s.addItemCall R item r
  | .finishEpoch => s.finishEpochCall R fuel r

/-- One call after the other. -/
def run (R : Rng ρ) (fuel : ℕ) :
    List (ShufflerCall κ) → Shuffler κ → ρ → Option (List (Called κ) × Shuffler κ × ρ)
  | [], s, r => some ([], s, r)
  | c :: cs, s, r => do
      let (done, r) ← s.call R fuel r c
      let (rest, s, r) ← run R fuel cs done.shuffler r
      pure (done :: rest, s, r)

theorem run_append {R : Rng ρ} {fuel : ℕ} {cs ds : List (ShufflerCall κ)} {s t u : Shuffler κ}
    {r r' r'' : ρ} {outs outs' : List (Called κ)} (hcs : run R fuel cs s r = some (outs, t, r'))
    (hds : run R fuel ds t r' = some (outs', u, r'')) :
    run R fuel (cs ++ ds) s r = some (outs ++ outs', u, r'') := by
  induction cs generalizing s r outs with
  | nil =>
      obtain ⟨rfl, rfl, rfl⟩ : [] = outs ∧ s = t ∧ r = r' := by simpa [run] using hcs
      exact hds
  | cons c cs ih =>
      simp only [run, Option.bind_eq_bind, Option.bind_eq_some_iff, Prod.exists,
        Option.pure_def, Option.some.injEq, Prod.mk.injEq] at hcs
      rcases hcs with ⟨done, r₁, hdone, rest, t', r₂, hrest, rfl, rfl, rfl⟩
      simp only [List.cons_append, run, hdone, ih hrest, Option.bind_eq_bind, Option.bind_some,
        Option.pure_def]

end Shuffler

/-- The item at the index that is drawn, and the others that stay. -/
theorem Rng.draws (R : Rng ρ) {buffer : List κ} (hpos : 0 < buffer.length) (r : ρ) :
    ∃ idx r' y, R.genRange r buffer.length = (idx, r') ∧ buffer[idx]? = some y ∧
      (y :: swapRemove buffer idx).Perm buffer ∧
      (swapRemove buffer idx).length + 1 = buffer.length := by
  have hidx := R.genRange_lt r buffer.length hpos
  obtain ⟨y, hy⟩ : ∃ y, buffer[(R.genRange r buffer.length).1]? = some y :=
    ⟨_, List.getElem?_eq_getElem hidx⟩
  have hperm := cons_swapRemove_perm hy
  have hlen := hperm.length_eq
  rw [List.length_cons] at hlen
  exact ⟨_, _, y, rfl, hy, hperm, hlen⟩

/-! ## What the buffer holds -/

/-- In the epoch that is open, `items` have been added and `puts` have left a
buffer of size `m`. -/
structure Filled (m : ℕ) (items puts : List κ) (s : Shuffler κ) : Prop where
  shape : ∃ k e, s = .shuffleBuffer s.buffered m k e
  perm : (puts ++ s.buffered).Perm items
  length_buffer : s.buffered.length = min items.length m
  early : ∀ j y, puts[j]? = some y → y ∈ items.take (m + j)

namespace Filled

variable {R : Rng ρ} {m fuel : ℕ} {items puts : List κ} {s : Shuffler κ} {r : ρ}

theorem length_puts (h : Filled m items puts s) : puts.length = items.length - m := by
  have hlen := h.perm.length_eq
  have hbuf := h.length_buffer
  rw [List.length_append] at hlen
  omega

theorem new (m : ℕ) : Filled m [] [] (Shuffler.new true m : Shuffler κ) :=
  ⟨⟨0, 0, rfl⟩, .refl _, (Nat.zero_min m).symm, by simp⟩

/-- An item that was early stays early when more is added. -/
theorem early_append (h : Filled m items puts s) (x : κ) {j : ℕ} {y : κ}
    (hj : puts[j]? = some y) : y ∈ (items ++ [x]).take (m + j) := by
  rw [List.take_append]
  exact List.mem_append_left _ (h.early j y hj)

/-- While there is room `add_item` stores. -/
theorem store (h : Filled m items puts s) (hroom : items.length < m) (x : κ) (r : ρ) :
    ∃ done, s.addItemCall R x r = some (done, r) ∧ done.sent = [] ∧
      Filled m (items ++ [x]) puts done.shuffler ∧ ∀ b ∈ done.buffers, b.length ≤ m := by
  rcases h.shape with ⟨k, e, hs⟩
  have hbuf := h.length_buffer
  have hperm := h.perm
  generalize s.buffered = buffer at hs hbuf hperm
  subst hs
  have hlt : buffer.length < m := by omega
  refine ⟨⟨[], [buffer ++ [x]], .shuffleBuffer (buffer ++ [x]) m (k + 1) e⟩, ?_, rfl,
    ⟨⟨k + 1, e, rfl⟩, ?_, ?_, fun j y => h.early_append x⟩, ?_⟩
  · simp only [Shuffler.addItemCall, Shuffler.addItem, if_pos hlt, Option.map_some]
    rfl
  · show (puts ++ (buffer ++ [x])).Perm (items ++ [x])
    rw [← List.append_assoc]
    exact hperm.append_right [x]
  · show (buffer ++ [x]).length = min (items ++ [x]).length m
    rw [List.length_append, List.length_append, List.length_singleton]
    omega
  · intro b hb
    rw [List.mem_singleton.mp hb, List.length_append, List.length_singleton]
    omega

/-- From then on it puts one of the items that were added before. -/
theorem swap (h : Filled m items puts s) (hm : 0 < m) (hfull : m ≤ items.length) (x : κ) (r : ρ) :
    ∃ done r' y, s.addItemCall R x r = some (done, r') ∧ done.sent = [some y] ∧
      Filled m (items ++ [x]) (puts ++ [y]) done.shuffler ∧ ∀ b ∈ done.buffers, b.length ≤ m := by
  rcases h.shape with ⟨k, e, hs⟩
  have hbuf := h.length_buffer
  have hperm := h.perm
  generalize s.buffered = buffer at hs hbuf hperm
  subst hs
  have hroom : ¬ buffer.length < m := by omega
  have hpos : 0 < buffer.length := by omega
  obtain ⟨idx, r', y, hdraw, hy, hrest, hrestlen⟩ := R.draws hpos r
  refine ⟨⟨[some y], [swapRemove buffer idx, swapRemove buffer idx ++ [x]],
    .shuffleBuffer (swapRemove buffer idx ++ [x]) m (k + 1) e⟩, r', y, ?_, rfl,
    ⟨⟨k + 1, e, rfl⟩, ?_, ?_, ?_⟩, ?_⟩
  · simp only [Shuffler.addItemCall, Shuffler.draw, hdraw, Shuffler.addItem, if_neg hroom, hy,
      Option.map_some]
    rfl
  · show (puts ++ [y] ++ (swapRemove buffer idx ++ [x])).Perm (items ++ [x])
    rw [← List.append_assoc]
    apply List.Perm.append_right
    rw [List.append_assoc]
    exact (hrest.append_left puts).trans hperm
  · show (swapRemove buffer idx ++ [x]).length = min (items ++ [x]).length m
    rw [List.length_append, List.length_append, List.length_singleton]
    omega
  · intro j z hj
    rcases Nat.lt_trichotomy j puts.length with hlt | rfl | hgt
    · rw [List.getElem?_append_left hlt] at hj
      exact h.early_append x hj
    · -- the new put: everything in the buffer was added before `x`
      rw [List.getElem?_append_right le_rfl, Nat.sub_self] at hj
      obtain rfl : y = z := Option.some_inj.mp hj
      have hN : m + puts.length = items.length := by
        have hlen := h.length_puts
        omega
      rw [hN, List.take_left' rfl]
      exact hperm.subset (List.mem_append_right _ (List.mem_of_getElem? hy))
    · rw [List.getElem?_eq_none (by rw [List.length_append]; exact hgt)] at hj
      cases hj
  · intro b hb
    rcases List.mem_pair.mp hb with rfl | rfl
    · omega
    · rw [List.length_append, List.length_singleton]
      omega

/-- `add_item` in either case: `new` is what it puts. -/
theorem addItem (h : Filled m items puts s) (hm : 0 < m) (x : κ) (r : ρ) :
    ∃ done r' new, s.addItemCall R x r = some (done, r') ∧ done.sent = new.map some ∧
      new.length = (if items.length < m then 0 else 1) ∧
      Filled m (items ++ [x]) (puts ++ new) done.shuffler ∧
      ∀ b ∈ done.buffers, b.length ≤ m := by
  by_cases hroom : items.length < m
  · obtain ⟨done, hcall, hsent, hfilled, hbuf⟩ := h.store (R := R) hroom x r
    rw [if_pos hroom]
    refine ⟨done, r, [], hcall, hsent, rfl, ?_, hbuf⟩
    rwa [List.append_nil]
  · obtain ⟨done, r', y, hcall, hsent, hfilled, hbuf⟩ :=
      h.swap (R := R) hm (not_lt.mp hroom) x r
    rw [if_neg hroom]
    exact ⟨done, r', [y], hcall, hsent, rfl, hfilled, hbuf⟩

/-- The loop of `finish_epoch` ends with an empty buffer, after one turn for
each item in it. -/
theorem flush_spec {buffer : List κ} {k e : ℕ} (hfuel : buffer.length < fuel) (r : ρ) :
    ∃ rest buffers r', Shuffler.flush R fuel (.shuffleBuffer buffer m k e) r =
        some (rest, buffers, .shuffleBuffer [] m k e, r') ∧
      rest.Perm buffer ∧ ∀ b ∈ buffers, b.length ≤ buffer.length := by
  induction fuel generalizing buffer r with
  | zero => omega
  | succ fuel ih =>
      cases buffer with
      | nil => exact ⟨[], [], r, rfl, .refl _, by simp⟩
      | cons x xs =>
          generalize hbuf : x :: xs = buffer at *
          have hpos : 0 < buffer.length := by
            rw [← hbuf]
            exact Nat.succ_pos _
          obtain ⟨idx, r₁, y, hdraw, hy, hperm, hlen⟩ := R.draws hpos r
          have hshort : (swapRemove buffer idx).length < fuel := by omega
          obtain ⟨rest, buffers, r', hflush, hrest, hle⟩ := ih hshort r₁
          refine ⟨y :: rest, swapRemove buffer idx :: buffers, r', ?_, ?_, ?_⟩
          · have hne : buffer.isEmpty = false := by rw [← hbuf]; rfl
            simp only [Shuffler.flush, Shuffler.buffered, hne, Bool.false_eq_true, if_false,
              Shuffler.draw, hdraw, Shuffler.sample, hy, Option.map_some, Option.bind_eq_bind,
              Option.bind_some, hflush, Option.pure_def]
          · exact (hrest.cons y).trans hperm
          · intro b hb
            rcases List.mem_cons.mp hb with rfl | hb
            · omega
            · have hb := hle b hb
              omega

/-- `finish_epoch` puts what is left, then the end marker, and the next epoch
begins with an empty buffer. -/
theorem finishEpoch (h : Filled m items puts s) (hfuel : m < fuel) (r : ρ) :
    ∃ done r' rest, s.finishEpochCall R fuel r = some (done, r') ∧
      done.sent = rest.map some ++ [none] ∧ (puts ++ rest).Perm items ∧
      Filled m [] [] done.shuffler ∧ ∀ b ∈ done.buffers, b.length ≤ m := by
  rcases h.shape with ⟨k, e, hs⟩
  have hbuf := h.length_buffer
  have hperm := h.perm
  generalize s.buffered = buffer at hs hbuf hperm
  subst hs
  obtain ⟨rest, buffers, r', hflush, hrest, hle⟩ :
      ∃ rest buffers r', Shuffler.flush R fuel (.shuffleBuffer buffer m k e) r =
          some (rest, buffers, .shuffleBuffer [] m k e, r') ∧
        rest.Perm buffer ∧ ∀ b ∈ buffers, b.length ≤ buffer.length :=
    flush_spec (by omega) r
  refine ⟨⟨rest.map some ++ [none], buffers, .shuffleBuffer [] m 0 (e + 1)⟩, r', rest, ?_, rfl,
    ?_, ⟨⟨0, e + 1, rfl⟩, .refl _, (Nat.zero_min m).symm, by simp⟩, ?_⟩
  · rw [Shuffler.finishEpochCall, hflush]
    rfl
  · exact (hrest.append_left puts).trans hperm
  · intro b hb
    have hb := hle b hb
    omega

end Filled

/-! ## Whole runs -/

/-- The first call of an epoch comes next. -/
def EpochStart (calls : List (ShufflerCall κ)) : Prop :=
  calls = [] ∨ calls.getLast? = some .finishEpoch

/-- When the items of an epoch leave: `sent` is what each of its calls has
sent and `puts` are all its puts in order. With the number `j` counted from 0,
put `j` falls into call `m + j`, the first `m` calls store, and a `finish_epoch`
sends the rest and the end marker. -/
structure EpochLaw (m : ℕ) (items : List κ) (finished : Prop) (sent : List (List (Option κ)))
    (puts : List κ) : Prop where
  stored : ∀ i < items.length, i < m → sent[i]? = some []
  swapped : ∀ j, m + j < items.length → ∃ y, puts[j]? = some y ∧ sent[m + j]? = some [some y]
  early : ∀ j y, puts[j]? = some y → y ∈ items.take (min (m + j) items.length)
  perm : finished → puts.Perm items
  flushed : finished →
    sent[items.length]? = some ((puts.drop (items.length - m)).map some ++ [none])

section Runs

variable {R : Rng ρ} {m fuel : ℕ}

/-- The adds of one epoch, from the items that were there before. -/
theorem Filled.adds {before puts : List κ} {s : Shuffler κ} (h : Filled m before puts s)
    (hm : 0 < m) (items : List κ) (r : ρ) :
    ∃ outs s' r' new, Shuffler.run R fuel (items.map .addItem) s r = some (outs, s', r') ∧
      Filled m (before ++ items) (puts ++ new) s' ∧ outs.length = items.length ∧
      (∀ i < items.length, before.length + i < m → (outs.map Called.sent)[i]? = some []) ∧
      (∀ i < items.length, m ≤ before.length + i → ∃ y,
        (puts ++ new)[before.length + i - m]? = some y ∧
          (outs.map Called.sent)[i]? = some [some y]) ∧
      ∀ c ∈ outs, ∀ b ∈ c.buffers, b.length ≤ m := by
  induction items generalizing before puts s r with
  | nil =>
      refine ⟨[], s, r, [], rfl, ?_, rfl, by simp, by simp, by simp⟩
      rwa [List.append_nil, List.append_nil]
  | cons x xs ih =>
      obtain ⟨done, r₁, new, hcall, hsent, hnew, hfilled, hbuf⟩ := h.addItem (R := R) hm x r
      obtain ⟨outs, s', r', new', hrun, hfilled', hlen, hstored, hswapped, hbufs⟩ :=
        ih hfilled r₁
      rw [List.append_assoc, List.append_assoc] at hfilled'
      rw [List.length_append, List.length_singleton] at hstored hswapped
      refine ⟨done :: outs, s', r', new ++ new', ?_, hfilled', ?_, ?_, ?_, ?_⟩
      · simp only [List.map_cons, Shuffler.run, Shuffler.call, hcall, hrun, Option.bind_eq_bind,
          Option.bind_some, Option.pure_def]
      · rw [List.length_cons, List.length_cons, hlen]
      · intro i hi hroom
        cases i with
        | zero =>
            rw [if_pos (by omega)] at hnew
            rw [List.map_cons, List.getElem?_cons_zero, hsent,
              List.eq_nil_of_length_eq_zero hnew, List.map_nil]
        | succ i =>
            rw [List.map_cons, List.getElem?_cons_succ]
            exact hstored i (Nat.lt_of_succ_lt_succ hi) (by omega)
      · intro i hi hfull
        cases i with
        | zero =>
            rw [if_neg (by omega)] at hnew
            obtain ⟨y, rfl⟩ := List.length_eq_one_iff.mp hnew
            have hputs := h.length_puts
            refine ⟨y, ?_, ?_⟩
            · rw [List.getElem?_append_right (by omega)]
              have hzero : before.length + 0 - m - puts.length = 0 := by omega
              rw [hzero]
              rfl
            · rw [List.map_cons, List.getElem?_cons_zero, hsent]
              rfl
        | succ i =>
            obtain ⟨y, hy, hout⟩ := hswapped i (Nat.lt_of_succ_lt_succ hi) (by omega)
            refine ⟨y, ?_, ?_⟩
            · rwa [List.append_assoc, Nat.add_right_comm, Nat.add_assoc] at hy
            · rw [List.map_cons, List.getElem?_cons_succ]
              exact hout
      · intro c hc
        rcases List.mem_cons.mp hc with rfl | hc
        · exact hbuf
        · exact hbufs c hc

/-- What a call leaves is the state of some epoch, a new one after
`finish_epoch`. -/
theorem Filled.call {items puts : List κ} {s : Shuffler κ} (h : Filled m items puts s)
    (hm : 0 < m) (hfuel : m < fuel) (c : ShufflerCall κ) (r : ρ) :
    ∃ done r' items' puts', s.call R fuel r c = some (done, r') ∧
      Filled m items' puts' done.shuffler ∧ (c = .finishEpoch → items' = [] ∧ puts' = []) ∧
      ∀ b ∈ done.buffers, b.length ≤ m := by
  cases c with
  | addItem x =>
      obtain ⟨done, r', new, hcall, -, -, hfilled, hbuf⟩ := h.addItem (R := R) hm x r
      exact ⟨done, r', _, _, hcall, hfilled, nofun, hbuf⟩
  | finishEpoch =>
      obtain ⟨done, r', rest, hcall, -, -, hfilled, hbuf⟩ := h.finishEpoch (R := R) hfuel r
      exact ⟨done, r', [], [], hcall, hfilled, fun _ => ⟨rfl, rfl⟩, hbuf⟩

/-- Every run goes through, keeps the buffer in its bounds, and begins each
epoch with an empty buffer. -/
theorem Filled.run {items puts : List κ} {s : Shuffler κ} (h : Filled m items puts s)
    (hm : 0 < m) (hfuel : m < fuel) (calls : List (ShufflerCall κ)) (r : ρ) :
    ∃ outs s' r', Shuffler.run R fuel calls s r = some (outs, s', r') ∧
      outs.length = calls.length ∧ (∀ c ∈ outs, ∀ b ∈ c.buffers, b.length ≤ m) ∧
      (∀ k : ℕ, calls[k]? = some .finishEpoch → ∀ c ∈ outs[k]?, c.shuffler.buffered = []) ∧
      (calls.getLast? = some .finishEpoch → Filled m [] [] s') := by
  induction calls generalizing items puts s r with
  | nil => exact ⟨[], s, r, rfl, rfl, by simp, by simp, by simp⟩
  | cons c cs ih =>
      obtain ⟨done, r₁, items₁, puts₁, hcall, hfilled, hend, hbuf⟩ :=
        h.call (R := R) hm hfuel c r
      obtain ⟨outs, s', r', hrun, hlen, hbufs, hends, hlast⟩ := ih hfilled r₁
      refine ⟨done :: outs, s', r', ?_, ?_, ?_, ?_, ?_⟩
      · simp only [Shuffler.run, hcall, hrun, Option.bind_eq_bind, Option.bind_some,
          Option.pure_def]
      · rw [List.length_cons, List.length_cons, hlen]
      · intro d hd
        rcases List.mem_cons.mp hd with rfl | hd
        · exact hbuf
        · exact hbufs d hd
      · intro k hk d hd
        cases k with
        | zero =>
            rw [List.getElem?_cons_zero, Option.some_inj] at hk
            rw [List.getElem?_cons_zero, Option.mem_some_iff] at hd
            obtain ⟨rfl, rfl⟩ := hend hk
            subst hd
            exact List.eq_nil_of_length_eq_zero (hfilled.length_buffer.trans (Nat.zero_min m))
        | succ k => exact hends k hk d hd
      · intro hgl
        cases cs with
        | nil =>
            -- the call was the last one: the run ends where it has left the shuffler
            obtain ⟨rfl, rfl⟩ := hend (Option.some_inj.mp hgl)
            simp only [Shuffler.run, Option.some.injEq, Prod.mk.injEq] at hrun
            rcases hrun with ⟨-, rfl, -⟩
            exact hfilled
        | cons d ds =>
            rw [List.getLast?_cons_cons] at hgl
            exact hlast hgl

/-- What follows the adds of an epoch: `rest` is what a `finish_epoch` puts. -/
theorem Filled.close {items puts : List κ} {s : Shuffler κ} (h : Filled m items puts s)
    (hm : 0 < m) (hfuel : m < fuel) (after : List (ShufflerCall κ)) (r : ρ) :
    ∃ outs s' r' rest, Shuffler.run R fuel after s r = some (outs, s', r') ∧
      (∀ y ∈ rest, y ∈ items) ∧
      (after.head? = some .finishEpoch → (puts ++ rest).Perm items ∧
        (outs.map Called.sent)[0]? = some (rest.map some ++ [none])) := by
  by_cases hhead : after.head? = some .finishEpoch
  · obtain ⟨after, rfl⟩ := List.head?_eq_some_iff.mp hhead
    obtain ⟨done, r₁, rest, hcall, hsent, hperm, hfilled, -⟩ := h.finishEpoch (R := R) hfuel r
    obtain ⟨outs, s', r', hrun, -⟩ := hfilled.run (R := R) hm hfuel after r₁
    refine ⟨done :: outs, s', r', rest, ?_, ?_, fun _ => ⟨hperm, ?_⟩⟩
    · simp only [Shuffler.run, Shuffler.call, hcall, hrun, Option.bind_eq_bind, Option.bind_some,
        Option.pure_def]
    · intro y hy
      exact hperm.subset (List.mem_append_right _ hy)
    · rw [List.map_cons, List.getElem?_cons_zero, hsent]
  · obtain ⟨outs, s', r', hrun, -⟩ := h.run (R := R) hm hfuel after r
    exact ⟨outs, s', r', [], hrun, by simp, fun h' => absurd h' hhead⟩

/-- One epoch, and what comes after it. -/
theorem epoch_calls {s : Shuffler κ} (h : Filled m [] [] s) (hm : 0 < m) (hfuel : m < fuel)
    (items : List κ) (after : List (ShufflerCall κ)) (r : ρ) :
    ∃ outs s' r' puts,
      Shuffler.run R fuel (items.map .addItem ++ after) s r = some (outs, s', r') ∧
      EpochLaw m items (after.head? = some .finishEpoch) (outs.map Called.sent) puts := by
  obtain ⟨outs, s₁, r₁, new, hrun, hfilled, hlen, hstored, hswapped, -⟩ :=
    @Filled.adds κ ρ R m fuel [] [] s h hm items r
  rw [List.nil_append, List.nil_append] at hfilled
  simp only [List.nil_append, List.length_nil, Nat.zero_add] at hstored hswapped
  have hputs := hfilled.length_puts
  obtain ⟨outs', s', r', rest, hrest, hmem, hclose⟩ :=
    hfilled.close (R := R) hm hfuel after r₁
  refine ⟨outs ++ outs', s', r', new ++ rest, Shuffler.run_append hrun hrest,
    ?_, ?_, ?_, fun hend => (hclose hend).1, ?_⟩
  · intro i hi hroom
    rw [List.map_append, List.getElem?_append_left (by rwa [List.length_map, hlen])]
    exact hstored i hi hroom
  · intro j hj
    obtain ⟨y, hy, hout⟩ := hswapped (m + j) hj (Nat.le_add_right m j)
    rw [Nat.add_sub_cancel_left] at hy
    refine ⟨y, ?_, ?_⟩
    · rw [List.getElem?_append_left (by omega)]
      exact hy
    · rw [List.map_append, List.getElem?_append_left (by rwa [List.length_map, hlen])]
      exact hout
  · intro j y hj
    by_cases hlate : items.length ≤ m + j
    · -- past the last add everything that was added may leave
      rw [Nat.min_eq_right hlate, List.take_length]
      rcases List.mem_append.mp (List.mem_of_getElem? hj) with hy | hy
      · exact hfilled.perm.subset (List.mem_append_left _ hy)
      · exact hmem y hy
    · rw [Nat.min_eq_left (by omega)]
      rw [List.getElem?_append_left (by omega)] at hj
      exact hfilled.early j y hj
  · intro hend
    rw [List.map_append, List.getElem?_append_right (by rw [List.length_map, hlen]),
      List.length_map, hlen, Nat.sub_self, ← hputs, List.drop_left]
    exact (hclose hend).2

end Runs

/-- The run of a new `ShuffleBuffer`: the bound on its buffer, and the law for
each of its epochs, the last one finished or not. -/
theorem shuffleBuffer_epochLaw (R : Rng ρ) {m fuel : ℕ} (hm : 1 ≤ m) (hfuel : m < fuel)
    (r : ρ) (calls : List (ShufflerCall κ)) :
    ∃ outs s' r', Shuffler.run R fuel calls (.new true m) r = some (outs, s', r') ∧
      outs.length = calls.length ∧
      (∀ c ∈ outs, ∀ b ∈ c.buffers, b.length ≤ m) ∧
      (∀ k : ℕ, calls[k]? = some .finishEpoch → ∀ c ∈ outs[k]?, c.shuffler.buffered = []) ∧
      ∀ before items after, calls = before ++ (items.map .addItem ++ after) →
        EpochStart before →
        ∃ puts, EpochLaw m items (after.head? = some .finishEpoch)
          ((outs.drop before.length).map Called.sent) puts := by
  obtain ⟨outs, s', r', hrun, hlen, hbufs, hends, -⟩ :=
    (Filled.new m).run (R := R) hm hfuel calls r
  refine ⟨outs, s', r', hrun, hlen, hbufs, hends, ?_⟩
  rintro before items after rfl hstart
  obtain ⟨outs₁, s₁, r₁, hrun₁, hlen₁, -, -, hlast⟩ :=
    (Filled.new m).run (R := R) hm hfuel before r
  have hfresh : Filled m [] [] s₁ := by
    rcases hstart with rfl | hgl
    · simp only [Shuffler.run, Option.some.injEq, Prod.mk.injEq] at hrun₁
      rcases hrun₁ with ⟨-, rfl, -⟩
      exact Filled.new m
    · exact hlast hgl
  obtain ⟨outs₂, s₂, r₂, puts, hrun₂, hlaw⟩ :=
    epoch_calls (R := R) hfresh hm hfuel items after r₁
  -- the two runs together are the one that was given
  have hall := Shuffler.run_append hrun₁ hrun₂
  rw [hrun, Option.some_inj, Prod.mk.injEq] at hall
  refine ⟨puts, ?_⟩
  rw [hall.1, ← hlen₁, List.drop_left]
  exact hlaw

/-- A generator that answers with the last index. -/
def Rng.last : Rng Unit where
  genRange r n := (n - 1, r)
  genRange_lt _ _ hn := Nat.sub_lt hn Nat.one_pos

/-- With room for one item each add after the first puts its predecessor. -/
theorem shuffleBuffer_epochLaw_last :
    ∃ outs s' r', Shuffler.run Rng.last 2
        [.addItem true, .addItem false, .finishEpoch] (.new true 1) () = some (outs, s', r') ∧
      outs.map Called.sent = [[], [some true], [some false, none]] ∧
      ∃ puts, EpochLaw 1 [true, false] True (outs.map Called.sent) puts := by
  obtain ⟨outs, s', r', hrun, -, -, -, hlaw⟩ :=
    shuffleBuffer_epochLaw Rng.last (Nat.le_refl 1) (show 1 < 2 by decide) ()
      [.addItem true, .addItem false, .finishEpoch]
  obtain ⟨puts, hputs⟩ := hlaw [] [true, false] [.finishEpoch] rfl (.inl rfl)
  refine ⟨outs, s', r', hrun, ?_, puts, ?_⟩
  · obtain ⟨rfl, -⟩ := Prod.mk.inj (Option.some_inj.mp hrun)
    rfl
  · simpa using hputs

end P2PRdt.Data
