import P2PRdt.Lib.Concatenation
import P2PRdt.Lib.PaddedDecimal
import P2PRdt.Robot.TextDropout
import Mathlib.Data.List.Induction

/-!
# The segments of a dataset and their files

`LatentLeRobotDataset` lists the segments of a repository, and
`MultiLatentLeRobotDataset` gives every segment of all repositories an index. The
numbers of chunks and episodes are read off the names of the data files and
formatted again when a file is opened. A segment is listed when its latent files
are there.

The index is compared with the concatenation of the segments that are listed.
-/

namespace P2PRdt.Robot

open Lib

/-! ## Numbers in names -/

/-- Digits, with single underscores between them. -/
def isIntLiteral (afterDigit : Bool) : List Char → Bool
  | [] => afterDigit
  | c :: cs =>
      if c.isDigit then isIntLiteral true cs
      else c = '_' && afterDigit && isIntLiteral false cs

def readDigits (text : List Char) : Option ℕ :=
  if isIntLiteral false text then some (Nat.ofDigitChars 10 (text.filter (· ≠ '_')) 0) else none

/-- `int(text)`, where `none` is a `ValueError`. Digits are those of ASCII; Python
reads other decimal digits of Unicode as well. -/
def pyInt (text : List Char) : Option ℤ :=
  match ((text.dropWhile isPySpace).reverse.dropWhile isPySpace).reverse with
  | '-' :: digits => (readDigits digits).map fun n => -(n : ℤ)
  | '+' :: digits => (readDigits digits).map fun n => (n : ℤ)
  | digits => (readDigits digits).map fun n => (n : ℤ)

/-- `f"{n:0{width}d}"`. -/
def formatInt (width : ℕ) : ℤ → List Char
  | .ofNat n => zeroPadded width n
  | .negSucc n => '-' :: zeroPadded (width - 1) (n + 1)

/-- `text.split(sep)[-1]`. -/
def lastPiece (sep : Char) (text : List Char) : List Char :=
  (text.reverse.takeWhile (· ≠ sep)).reverse

/-! ## One repository -/

/-- The entries of an `action_config` that are read; `cur_meta.update` may replace
the episode and its tasks. -/
structure ActionConfig where
  startFrame : Option ℤ
  endFrame : Option ℤ
  actionText : Option String
  episodeIndex : Option ℤ
  tasks : Option (List String)

structure EpisodeMeta where
  episodeIndex : ℤ
  tasks : List String
  actionConfig : List ActionConfig

/-- `cur_meta`. -/
structure Segment where
  episodeIndex : ℤ
  tasks : List String
  actionText : Option String
  startFrame : ℤ
  endFrame : ℤ

/-- `cur_meta.update(acfg)`, without a result when a frame is missing. -/
def EpisodeMeta.curMeta (value : EpisodeMeta) (acfg : ActionConfig) : Option Segment := do
  let startFrame ← acfg.startFrame
  let endFrame ← acfg.endFrame
  pure
    { episodeIndex := acfg.episodeIndex.getD value.episodeIndex
      tasks := acfg.tasks.getD value.tasks
      actionText := acfg.actionText
      startFrame
      endFrame }

/-- A repository. `files` are the paths below its root, part by part, in the order
in which the directories are listed. -/
structure LeRobotRepo where
  name : List Char
  files : List (List (List Char))
  metaEpisodes : List EpisodeMeta

namespace LeRobotRepo

def chunkName (chunk : ℤ) : List Char := "chunk-".toList ++ formatInt 3 chunk

def episodeName (episodeIndex : ℤ) : List Char := "episode_".toList ++ formatInt 6 episodeIndex

def parquetSuffix : List Char := ".parquet".toList

variable (r : LeRobotRepo)

/-- `data_root.glob('chunk-*/episode_*.parquet')`: the parent's name and the stem. -/
def globParquet : List (List Char × List Char) :=
  r.files.filterMap fun path =>
    match path with
    | [root, parent, name] =>
        if root = "data".toList ∧ "chunk-".toList <+: parent ∧ "episode_".toList <+: name ∧
            parquetSuffix <:+ name then
          some (parent, name.take (name.length - parquetSuffix.length))
        else none
    | _ => none

/-- The body of the loop of `_build_episode_chunk_index`; names without numbers are
skipped. -/
def addNames (index : ℤ → Option ℤ) (names : List Char × List Char) : ℤ → Option ℤ :=
  match pyInt (lastPiece '-' names.1), pyInt (lastPiece '_' names.2) with
  | some chunkIndex, some episodeIndex => Function.update index episodeIndex (some chunkIndex)
  | _, _ => index

def buildEpisodeChunkIndex : ℤ → Option ℤ := r.globParquet.foldl addNames fun _ => none

/-- `_get_episode_chunk`, without a result for a missing episode. -/
def getEpisodeChunk (episodeIndex : ℤ) : Option ℤ := r.buildEpisodeChunkIndex episodeIndex

/-- `_get_episode_action_path`. -/
def getEpisodeActionPath (episodeIndex : ℤ) : Option (List (List Char)) := do
  let episodeChunk ← r.getEpisodeChunk episodeIndex
  pure ["data".toList, chunkName episodeChunk, episodeName episodeIndex ++ parquetSuffix]

/-- The latent file of a camera for the frames of a segment. -/
def latentFile (episodeChunk : ℤ) (key : List Char) (seg : Segment) : List (List Char) :=
  ["latents".toList, chunkName episodeChunk, key,
    episodeName seg.episodeIndex ++ '_' :: formatInt 0 seg.startFrame ++
      '_' :: formatInt 0 seg.endFrame ++ ".pth".toList]

/-- `_check_meta`. -/
def checkMeta (usedVideoKeys : List (List Char)) (seg : Segment) : Option Bool := do
  let episodeChunk ← r.getEpisodeChunk seg.episodeIndex
  pure (usedVideoKeys.all fun key => decide (latentFile episodeChunk key seg ∈ r.files))

/-- The body of the loops of `parse_meta`. -/
def addSegment (usedVideoKeys : List (List Char)) (value : EpisodeMeta) (out : List Segment)
    (acfg : ActionConfig) : Option (List Segment) := do
  let curMeta ← value.curMeta acfg
  let checkStatu ← r.checkMeta usedVideoKeys curMeta
  pure (if checkStatu then out ++ [curMeta] else out)

def parseMeta (usedVideoKeys : List (List Char)) : Option (List Segment) :=
  r.metaEpisodes.foldlM
    (fun out value => value.actionConfig.foldlM (r.addSegment usedVideoKeys value) out) []

end LeRobotRepo

/-! ## All repositories -/

inductive IndexError where
  | assertionError
  | keyError
  | zeroDivisionError
  deriving DecidableEq

structure LatentLeRobotDataset where
  repo : LeRobotRepo
  newMetas : List Segment

/-- The segment that `__getitem__` reads. Only `% 0` leaves the list without one. -/
def LatentLeRobotDataset.getMeta (d : LatentLeRobotDataset) (idx : ℤ) :
    Except IndexError Segment :=
  match d.newMetas[(idx % d.newMetas.length).toNat]? with
  | some curMeta => .ok curMeta
  | none => .error .zeroDivisionError

def constructLerobot (usedVideoKeys : List (List Char)) (r : LeRobotRepo) :
    Option LatentLeRobotDataset :=
  (r.parseMeta usedVideoKeys).map fun newMetas => ⟨r, newMetas⟩

/-- The repositories of the task, if there is one. -/
def selectRepos (singleTask : Option (List Char)) (repos : List LeRobotRepo) :
    List LeRobotRepo :=
  match singleTask with
  | none | some [] => repos
  | some task => repos.filter fun r => (task ++ ['-']).isPrefixOf r.name

/-- `construct_lerobot_multi_processor`; an exception of one process is raised again. -/
def constructLerobotMultiProcessor (usedVideoKeys : List (List Char))
    (singleTask : Option (List Char)) (repos : List LeRobotRepo) :
    Option (List LatentLeRobotDataset) :=
  (selectRepos singleTask repos).mapM (constructLerobot usedVideoKeys)

/-- The variables of `_get_item_id_to_dataset_id`. -/
structure ItemIndex where
  itemIdToDatasetId : ℤ → Option ℕ
  accNums : List ℕ
  id : ℕ

namespace ItemIndex

def assign (dsetId : ℕ) (ix : ItemIndex) : ItemIndex :=
  { ix with
    itemIdToDatasetId := Function.update ix.itemIdToDatasetId ix.id (some dsetId)
    id := ix.id + 1 }

def addDataset (ix : ItemIndex) (dset : ℕ × ℕ) : ItemIndex :=
  (assign dset.2)^[dset.1] { ix with accNums := ix.accNums ++ [ix.accNums.getLastD 0 + dset.1] }

/-- The loop over the datasets, of which only the lengths count. -/
def ofLengths (lens : List ℕ) : ItemIndex :=
  lens.zipIdx.foldl addDataset ⟨fun _ => none, [0], 0⟩

end ItemIndex

structure MultiLatentLeRobotDataset where
  datasets : List LatentLeRobotDataset

namespace MultiLatentLeRobotDataset

variable (d : MultiLatentLeRobotDataset)

def lengths : List ℕ := d.datasets.map fun dset => dset.newMetas.length

def len : ℕ := d.lengths.sum

/-- `__getitem__`, up to the segment and its repository. -/
def getItem (idx : ℤ) : Except IndexError (LeRobotRepo × Segment) :=
  let index := ItemIndex.ofLengths d.lengths
  if idx < d.len then
    match index.itemIdToDatasetId idx with
    | none => .error .keyError
    | some dsetId =>
        match d.datasets[dsetId]?, index.accNums[dsetId]? with
        | some curDset, some accDsetNum =>
            (curDset.getMeta (idx - accDsetNum)).map fun curMeta => (curDset.repo, curMeta)
        | _, _ => .error .keyError
  else .error .assertionError

end MultiLatentLeRobotDataset

/-! ## Numbers survive in padded names -/

section Names

variable {width n : ℕ} {digits : List Char}

theorem ne_of_isDigit {c d : Char} (hc : c.isDigit = true) (hd : d.isDigit = false) : c ≠ d := by
  rintro rfl
  exact Bool.false_ne_true (hd.symm.trans hc)

theorem isPySpace_of_isDigit {c : Char} (hc : c.isDigit = true) : isPySpace c = false := by
  simp only [Char.isDigit, Bool.and_eq_true, decide_eq_true_eq] at hc
  have hlow : 48 ≤ c.toNat := hc.1
  have hhigh : c.toNat ≤ 57 := hc.2
  simp only [isPySpace, decide_eq_false_iff_not]
  omega

theorem dropWhile_isPySpace {c : Char} {cs : List Char} (hc : c.isDigit = true) :
    (c :: cs).dropWhile isPySpace = c :: cs :=
  List.dropWhile_cons_of_neg (by rw [isPySpace_of_isDigit hc]; exact Bool.false_ne_true)

/-- Digits have no spaces around them. -/
theorem strip_digits (h : ∀ c ∈ digits, c.isDigit = true) :
    ((digits.dropWhile isPySpace).reverse.dropWhile isPySpace).reverse = digits := by
  have hkeep : ∀ l : List Char, (∀ c ∈ l, c.isDigit = true) → l.dropWhile isPySpace = l := by
    intro l hl
    cases l with
    | nil => rfl
    | cons c cs => exact dropWhile_isPySpace (hl c List.mem_cons_self)
  rw [hkeep digits h, hkeep digits.reverse fun c hc => h c (List.mem_reverse.mp hc),
    List.reverse_reverse]

theorem isIntLiteral_digits (h : ∀ c ∈ digits, c.isDigit = true) :
    isIntLiteral true digits = true := by
  induction digits with
  | nil => rfl
  | cons c cs ih =>
      rw [isIntLiteral, if_pos (h c List.mem_cons_self)]
      exact ih fun d hd => h d (List.mem_cons_of_mem c hd)

theorem readDigits_zeroPadded (width n : ℕ) : readDigits (zeroPadded width n) = some n := by
  have hdigits : ∀ c ∈ zeroPadded width n, c.isDigit = true := fun _ => isDigit_of_mem_zeroPadded
  have hliteral : isIntLiteral false (zeroPadded width n) = true := by
    cases hcases : zeroPadded width n with
    | nil =>
        obtain ⟨-, hempty⟩ := List.append_eq_nil_iff.mp hcases
        exact absurd hempty Nat.toDigits_ne_nil
    | cons c cs =>
        rw [hcases] at hdigits
        rw [isIntLiteral, if_pos (hdigits c List.mem_cons_self)]
        exact isIntLiteral_digits fun d hd => hdigits d (List.mem_cons_of_mem c hd)
  have hfilter : (zeroPadded width n).filter (· ≠ '_') = zeroPadded width n := by
    rw [List.filter_eq_self]
    intro c hc
    exact decide_eq_true (ne_of_isDigit (hdigits c hc) rfl)
  rw [readDigits, if_pos hliteral, hfilter, ofDigitChars_zeroPadded]

/-- `int` reads a padded number as the number. -/
theorem pyInt_zeroPadded (width n : ℕ) : pyInt (zeroPadded width n) = some (n : ℤ) := by
  have hdigits : ∀ c ∈ zeroPadded width n, c.isDigit = true := fun _ => isDigit_of_mem_zeroPadded
  rw [pyInt, strip_digits hdigits]
  split
  · next digits hsign =>
    exact absurd rfl (ne_of_isDigit (hdigits '-' (hsign ▸ List.mem_cons_self)) rfl)
  · next digits hsign =>
    exact absurd rfl (ne_of_isDigit (hdigits '+' (hsign ▸ List.mem_cons_self)) rfl)
  · rw [readDigits_zeroPadded]
    rfl

theorem lastPiece_append {sep : Char} {front digits : List Char} (h : sep ∉ digits) :
    lastPiece sep (front ++ sep :: digits) = digits := by
  have hdigits : ∀ c ∈ digits.reverse, decide (c ≠ sep) = true := by
    intro c hc
    refine decide_eq_true ?_
    rintro rfl
    exact h (List.mem_reverse.mp hc)
  rw [lastPiece, List.reverse_append, List.reverse_cons, List.append_assoc,
    List.takeWhile_append_of_pos hdigits, List.singleton_append,
    List.takeWhile_cons_of_neg (by simp), List.append_nil, List.reverse_reverse]

theorem pyInt_lastPiece {sep : Char} (hsep : sep.isDigit = false) (front : List Char)
    (width n : ℕ) : pyInt (lastPiece sep (front ++ sep :: zeroPadded width n)) = some (n : ℤ) := by
  rw [lastPiece_append, pyInt_zeroPadded]
  intro hmem
  exact absurd rfl (ne_of_isDigit (isDigit_of_mem_zeroPadded hmem) hsep)

end Names

/-! ## Every place has a dataset -/

namespace ItemIndex

variable {lens : List ℕ} {ix : ItemIndex}

/-- The inner loop gives the next places to one dataset. -/
theorem iterate_assign (dsetId n : ℕ) (ix : ItemIndex) :
    (assign dsetId)^[n] ix =
      { ix with
        itemIdToDatasetId := fun i =>
          if (ix.id : ℤ) ≤ i ∧ i < ix.id + n then some dsetId else ix.itemIdToDatasetId i
        id := ix.id + n } := by
  induction n with
  | zero =>
      have hnone : ∀ i : ℤ, ¬ ((ix.id : ℤ) ≤ i ∧ i < ix.id + (0 : ℕ)) := by
        intro i
        omega
      simp only [Function.iterate_zero, id_eq, hnone, if_false, Nat.add_zero]
  | succ n ih =>
      rw [Function.iterate_succ_apply', ih, assign]
      congr 1
      funext i
      by_cases hi : i = ((ix.id + n : ℕ) : ℤ)
      · subst hi
        rw [Function.update_self, if_pos]
        omega
      · rw [Function.update_of_ne hi]
        refine if_congr ?_ rfl rfl
        omega

/-- The variables after the loop over datasets of these lengths. -/
structure Numbers (lens : List ℕ) (ix : ItemIndex) : Prop where
  id : ix.id = lens.sum
  accNums : ∀ k ≤ lens.length, ix.accNums[k]? = some (lens.take k).sum
  length : ix.accNums.length = lens.length + 1
  inside : ∀ k len j, lens[k]? = some len → j < len →
    ix.itemIdToDatasetId ((lens.take k).sum + j : ℕ) = some k
  outside : ∀ i : ℤ, i < 0 ∨ lens.sum ≤ i → ix.itemIdToDatasetId i = none

theorem Numbers.addDataset (h : Numbers lens ix) (len : ℕ) :
    Numbers (lens ++ [len]) (ix.addDataset (len, lens.length)) := by
  have hlast : ix.accNums.getLastD 0 = lens.sum := by
    have hsum := h.accNums lens.length le_rfl
    rw [List.take_length] at hsum
    rw [List.getLastD_eq_getLast?, List.getLast?_eq_getElem?, h.length, Nat.add_sub_cancel, hsum,
      Option.getD_some]
  have hsum : (lens ++ [len]).sum = lens.sum + len := by rw [List.sum_append, List.sum_singleton]
  rw [ItemIndex.addDataset, iterate_assign, hlast, h.id]
  constructor
  case id => exact hsum.symm
  case length => rw [List.length_append, h.length, List.length_append]; rfl
  case accNums =>
    intro k hk
    rw [List.length_append, List.length_singleton] at hk
    rcases Nat.lt_or_ge lens.length k with hnew | hold
    · obtain rfl : k = lens.length + 1 := by omega
      rw [List.getElem?_append_right h.length.le, h.length, Nat.sub_self,
        List.take_of_length_le (by simp), hsum]
      rfl
    · rw [List.getElem?_append_left (h.length ▸ Nat.lt_succ_of_le hold), h.accNums k hold,
        List.take_append_of_le_length hold]
  case inside =>
    intro k len' j hk hj
    rcases Nat.lt_or_ge k lens.length with hold | hnew
    · rw [List.getElem?_append_left hold] at hk
      rw [List.take_append_of_le_length hold.le]
      have hfull : (lens.take k).sum + j < lens.sum := by
        have hsplit := List.sum_take_add_sum_drop lens k
        rw [List.drop_eq_getElem_cons hold, List.sum_cons,
          Option.some.inj ((List.getElem?_eq_getElem hold).symm.trans hk)] at hsplit
        omega
      show (if _ then _ else _) = _
      rw [if_neg (by omega)]
      exact h.inside k len' j hk hj
    · -- the new dataset
      rw [List.getElem?_append_right hnew] at hk
      obtain ⟨hlt, hlen⟩ := List.getElem?_eq_some_iff.mp hk
      rw [List.length_singleton] at hlt
      obtain rfl : k = lens.length := by omega
      obtain rfl : len = len' := by simpa using hlen
      rw [List.take_left]
      show (if _ then _ else _) = _
      rw [if_pos (by omega)]
  case outside =>
    intro i hi
    rw [hsum] at hi
    show (if _ then _ else _) = _
    rw [if_neg (by omega)]
    exact h.outside i (by omega)

/-- What the loop writes. -/
theorem numbers_ofLengths (lens : List ℕ) : Numbers lens (ofLengths lens) := by
  induction lens using List.reverseRecOn with
  | nil =>
      constructor
      case accNums =>
        intro k hk
        obtain rfl : k = 0 := Nat.le_zero.mp hk
        rfl
      case inside =>
        intro k len j hk
        cases hk
      case outside =>
        intro i _
        rfl
      all_goals rfl
  | append_singleton lens len ih =>
      rw [ofLengths, List.zipIdx_append, List.foldl_append]
      simpa [ofLengths] using ih.addDataset len

end ItemIndex

namespace MultiLatentLeRobotDataset

variable {d : MultiLatentLeRobotDataset}

/-- A place inside a list is not moved by `%`. -/
theorem getMeta_natCast {dset : LatentLeRobotDataset} {j : ℕ} {seg : Segment}
    (h : dset.newMetas[j]? = some seg) : dset.getMeta j = .ok seg := by
  obtain ⟨hlt, -⟩ := List.getElem?_eq_some_iff.mp h
  have hmod : ((j : ℤ) % dset.newMetas.length).toNat = j := by
    rw [← Int.natCast_mod, Int.toNat_natCast, Nat.mod_eq_of_lt hlt]
  rw [LatentLeRobotDataset.getMeta, hmod, h]

/-- All segments with their repositories, one dataset after the other. -/
def entries (d : MultiLatentLeRobotDataset) : List (LeRobotRepo × Segment) :=
  (d.datasets.map fun dset => dset.newMetas.map fun seg => (dset.repo, seg)).flatten

theorem lengths_eq (d : MultiLatentLeRobotDataset) :
    d.lengths = (d.datasets.map fun dset =>
      dset.newMetas.map fun seg => (dset.repo, seg)).map List.length := by
  rw [lengths, List.map_map]
  refine List.map_congr_left ?_
  intro dset _
  exact (List.length_map _).symm

theorem length_entries (d : MultiLatentLeRobotDataset) : d.entries.length = d.len := by
  rw [entries, List.length_flatten, len, lengths_eq]

/-- **The index is that of the concatenation.** -/
theorem getItem_natCast {i : ℕ} {entry : LeRobotRepo × Segment} (h : d.entries[i]? = some entry) :
    d.getItem i = .ok entry := by
  obtain ⟨hlt, -⟩ := List.getElem?_eq_some_iff.mp h
  rw [length_entries] at hlt
  obtain ⟨k, j, len, hk, hj, rfl⟩ := exists_start_add hlt
  have hnumbers := ItemIndex.numbers_ofLengths d.lengths
  obtain ⟨hk', -⟩ := List.getElem?_eq_some_iff.mp hk
  obtain ⟨dset, hdset, rfl⟩ : ∃ dset, d.datasets[k]? = some dset ∧ dset.newMetas.length = len := by
    rw [lengths, List.getElem?_map, Option.map_eq_some_iff] at hk
    exact hk
  -- the entry is the one of its own dataset
  have hplace : (d.datasets.map fun dset =>
      dset.newMetas.map fun seg => (dset.repo, seg))[k]? =
        some (dset.newMetas.map fun seg => (dset.repo, seg)) := by
    rw [List.getElem?_map, hdset, Option.map_some]
  have hentry := getElem?_flatten_start hplace (j := j) (by rwa [List.length_map])
  rw [← lengths_eq, ← entries, h, List.getElem?_map] at hentry
  obtain ⟨seg, hseg, rfl⟩ := Option.map_eq_some_iff.mp hentry.symm
  have hlocal :
      (((d.lengths.take k).sum + j : ℕ) : ℤ) - ((d.lengths.take k).sum : ℕ) = (j : ℕ) := by
    omega
  rw [getItem, if_pos (by exact_mod_cast hlt), hnumbers.inside k _ j hk hj]
  simp only [hdset, hnumbers.accNums k hk'.le, hlocal, getMeta_natCast hseg]
  rfl

theorem getItem_of_neg {idx : ℤ} (h : idx < 0) : d.getItem idx = .error .keyError := by
  have hlt : idx < d.len := by omega
  rw [getItem, if_pos hlt, (ItemIndex.numbers_ofLengths d.lengths).outside idx (Or.inl h)]

theorem getItem_of_ge {idx : ℤ} (h : d.len ≤ idx) : d.getItem idx = .error .assertionError :=
  if_neg (not_lt.mpr h)

end MultiLatentLeRobotDataset

/-! ## What is listed -/

namespace LeRobotRepo

variable {r : LeRobotRepo} {usedVideoKeys : List (List Char)} {seg : Segment}

def segments (r : LeRobotRepo) : List Segment :=
  r.metaEpisodes.flatMap fun value => value.actionConfig.filterMap value.curMeta

/-- The segments whose latent files are there. -/
def listed (r : LeRobotRepo) (usedVideoKeys : List (List Char)) : List Segment :=
  r.segments.filter fun seg => r.checkMeta usedVideoKeys seg = some true

theorem foldlM_addSegment {value : EpisodeMeta} {acfgs : List ActionConfig}
    {out out' : List Segment}
    (h : acfgs.foldlM (r.addSegment usedVideoKeys value) out = some out') :
    out' = out ++ (acfgs.filterMap value.curMeta).filter
      fun seg => r.checkMeta usedVideoKeys seg = some true := by
  induction acfgs generalizing out with
  | nil =>
      rw [List.filterMap_nil, List.filter_nil, List.append_nil]
      exact (Option.some.inj h).symm
  | cons acfg acfgs ih =>
      rw [List.foldlM_cons, Option.bind_eq_bind, Option.bind_eq_some_iff] at h
      obtain ⟨mid, hmid, h⟩ := h
      simp only [addSegment, Option.bind_eq_bind, Option.bind_eq_some_iff, Option.pure_def,
        Option.some_inj] at hmid
      obtain ⟨curMeta, hcur, checkStatu, hcheck, rfl⟩ := hmid
      rw [ih h, List.filterMap_cons_some hcur, List.filter_cons, hcheck]
      cases checkStatu with
      | false => simp
      | true => simp

/-- `parse_meta` keeps the segments that pass the check, in their order. -/
theorem parseMeta_eq {out : List Segment} (h : r.parseMeta usedVideoKeys = some out) :
    out = r.listed usedVideoKeys := by
  have hloop : ∀ (values : List EpisodeMeta) (front : List Segment),
      values.foldlM
        (fun out value => value.actionConfig.foldlM (r.addSegment usedVideoKeys value) out) front =
          some out →
      out = front ++ (values.flatMap fun value => value.actionConfig.filterMap value.curMeta).filter
        fun seg => r.checkMeta usedVideoKeys seg = some true := by
    intro values
    induction values with
    | nil =>
        intro front h
        rw [List.flatMap_nil, List.filter_nil, List.append_nil]
        exact (Option.some.inj h).symm
    | cons value values ih =>
        intro front h
        rw [List.foldlM_cons, Option.bind_eq_bind, Option.bind_eq_some_iff] at h
        obtain ⟨mid, hmid, h⟩ := h
        rw [ih mid h, foldlM_addSegment hmid, List.flatMap_cons, List.filter_append,
          List.append_assoc]
  exact hloop r.metaEpisodes [] h

/-- The data files have the names that the dataset formats. -/
def NamesPadded (r : LeRobotRepo) : Prop :=
  ∀ names ∈ r.globParquet, ∃ chunk episode : ℕ, names = (chunkName chunk, episodeName episode)

theorem pyInt_chunkName (chunk : ℕ) : pyInt (lastPiece '-' (chunkName chunk)) = some (chunk : ℤ) :=
  pyInt_lastPiece rfl "chunk".toList 3 chunk

theorem pyInt_episodeName (episode : ℕ) :
    pyInt (lastPiece '_' (episodeName episode)) = some (episode : ℤ) :=
  pyInt_lastPiece rfl "episode".toList 6 episode

/-- A name that the glob finds is a file. -/
theorem mem_files_of_glob {names : List Char × List Char} (h : names ∈ r.globParquet) :
    ["data".toList, names.1, names.2 ++ parquetSuffix] ∈ r.files := by
  obtain ⟨path, hpath, hnames⟩ := List.mem_filterMap.mp h
  split at hnames
  · next root parent name =>
    split at hnames
    · next hmatch =>
      obtain ⟨rfl, -, -, stem, hstem⟩ := hmatch
      obtain rfl := Option.some.inj hnames
      have hname : name.take (name.length - parquetSuffix.length) ++ parquetSuffix = name := by
        rw [← hstem, List.length_append, Nat.add_sub_cancel, List.take_left]
      rw [hname]
      exact hpath
    · cases hnames
  · cases hnames

/-- A name changes the entry of its own episode. -/
theorem addNames_eq_some {index : ℤ → Option ℤ} {names : List Char × List Char}
    {episode chunk : ℤ} (h : addNames index names episode = some chunk) :
    index episode = some chunk ∨
      pyInt (lastPiece '-' names.1) = some chunk ∧
        pyInt (lastPiece '_' names.2) = some episode := by
  cases hchunk : pyInt (lastPiece '-' names.1) with
  | none =>
      rw [addNames, hchunk] at h
      exact Or.inl h
  | some chunk' =>
      cases hepisode : pyInt (lastPiece '_' names.2) with
      | none =>
          rw [addNames, hchunk, hepisode] at h
          exact Or.inl h
      | some episode' =>
          rw [addNames, hchunk, hepisode] at h
          by_cases hsame : episode = episode'
          · subst hsame
            simp only [Function.update_self] at h
            exact Or.inr ⟨h, rfl⟩
          · simp only [Function.update_of_ne hsame] at h
            exact Or.inl h

/-- An entry of the index comes from the name of a file. -/
theorem exists_of_foldl_addNames {found : List (List Char × List Char)} {episode chunk : ℤ}
    (h : found.foldl addNames (fun _ => none) episode = some chunk) :
    ∃ names ∈ found, pyInt (lastPiece '-' names.1) = some chunk ∧
      pyInt (lastPiece '_' names.2) = some episode := by
  induction found using List.reverseRecOn with
  | nil => cases h
  | append_singleton earlier names ih =>
      rw [List.foldl_append, List.foldl_cons, List.foldl_nil] at h
      rcases addNames_eq_some h with hindex | hread
      · obtain ⟨other, hother, hread⟩ := ih hindex
        exact ⟨other, List.mem_append_left _ hother, hread⟩
      · exact ⟨names, List.mem_append_right _ List.mem_cons_self, hread⟩

/-- The files that `__getitem__` opens for a segment, apart from the videos. -/
structure FilesThere (r : LeRobotRepo) (usedVideoKeys : List (List Char)) (seg : Segment) :
    Prop where
  latents : ∃ chunk, r.getEpisodeChunk seg.episodeIndex = some chunk ∧
    ∀ key ∈ usedVideoKeys, latentFile chunk key seg ∈ r.files
  actions : r.NamesPadded → ∃ path, r.getEpisodeActionPath seg.episodeIndex = some path ∧
    path ∈ r.files

theorem filesThere_of_listed (h : seg ∈ r.listed usedVideoKeys) :
    r.FilesThere usedVideoKeys seg := by
  obtain ⟨-, hcheck⟩ := List.mem_filter.mp h
  have hcheck := of_decide_eq_true hcheck
  simp only [checkMeta, Option.bind_eq_bind, Option.bind_eq_some_iff, Option.pure_def,
    Option.some_inj, List.all_eq_true, decide_eq_true_eq] at hcheck
  obtain ⟨chunk, hchunk, hlatents⟩ := hcheck
  refine ⟨⟨chunk, hchunk, hlatents⟩, ?_⟩
  intro hpadded
  obtain ⟨names, hnames, hreadChunk, hreadEpisode⟩ := exists_of_foldl_addNames hchunk
  obtain ⟨c, e, rfl⟩ := hpadded names hnames
  obtain rfl := Option.some.inj ((pyInt_chunkName c).symm.trans hreadChunk)
  have hepisode : (e : ℤ) = seg.episodeIndex :=
    Option.some.inj ((pyInt_episodeName e).symm.trans hreadEpisode)
  refine ⟨_, ?_, mem_files_of_glob hnames⟩
  rw [getEpisodeActionPath, hchunk, ← hepisode]
  rfl

end LeRobotRepo

/-! ## The index of all repositories -/

namespace MultiLatentLeRobotDataset

/-- The dataset over these repositories has every listed segment under one index. -/
structure Indexes (usedVideoKeys : List (List Char)) (repos : List LeRobotRepo)
    (d : MultiLatentLeRobotDataset) : Prop where
  items : ∀ i : ℕ, d.getItem i =
    ((repos.flatMap fun r => (r.listed usedVideoKeys).map fun seg => (r, seg))[i]?).elim
      (.error .assertionError) .ok
  negative : ∀ idx < 0, d.getItem idx = .error .keyError
  files : ∀ idx r seg, d.getItem idx = .ok (r, seg) → r.FilesThere usedVideoKeys seg

theorem entries_of_construct {usedVideoKeys : List (List Char)} {repos : List LeRobotRepo}
    {datasets : List LatentLeRobotDataset}
    (h : repos.mapM (constructLerobot usedVideoKeys) = some datasets) :
    (MultiLatentLeRobotDataset.mk datasets).entries =
      repos.flatMap fun r => (r.listed usedVideoKeys).map fun seg => (r, seg) := by
  induction repos generalizing datasets with
  | nil =>
      obtain rfl : [] = datasets := by simpa using h
      rfl
  | cons r repos ih =>
      simp only [List.mapM_cons, Option.bind_eq_bind, Option.pure_def, Option.bind_eq_some_iff,
        Option.some_inj, constructLerobot, Option.map_eq_some_iff] at h
      obtain ⟨_, ⟨newMetas, hparse, rfl⟩, rest, hrest, rfl⟩ := h
      rw [List.flatMap_cons, ← ih hrest, LeRobotRepo.parseMeta_eq hparse]
      rfl

/-- **Every listed segment has one index**, and its files are there. -/
theorem construct_indexes {usedVideoKeys : List (List Char)} {singleTask : Option (List Char)}
    {repos : List LeRobotRepo} {datasets : List LatentLeRobotDataset}
    (h : constructLerobotMultiProcessor usedVideoKeys singleTask repos = some datasets) :
    (MultiLatentLeRobotDataset.mk datasets).Indexes usedVideoKeys
      (selectRepos singleTask repos) := by
  have hentries := entries_of_construct h
  have hitems : ∀ i : ℕ, (MultiLatentLeRobotDataset.mk datasets).getItem i =
      ((MultiLatentLeRobotDataset.mk datasets).entries[i]?).elim (.error .assertionError) .ok := by
    intro i
    cases hi : (MultiLatentLeRobotDataset.mk datasets).entries[i]? with
    | some entry => exact getItem_natCast hi
    | none =>
        rw [List.getElem?_eq_none_iff, length_entries] at hi
        exact getItem_of_ge (by exact_mod_cast hi)
  constructor
  case items =>
    intro i
    rw [hitems, hentries]
  case negative => exact fun idx hidx => getItem_of_neg hidx
  case files =>
    intro idx r seg hget
    rcases lt_or_ge idx 0 with hneg | hpos
    · rw [getItem_of_neg hneg] at hget
      cases hget
    · obtain ⟨i, rfl⟩ := Int.eq_ofNat_of_zero_le hpos
      rw [hitems, hentries] at hget
      cases hi : ((selectRepos singleTask repos).flatMap fun r =>
          (r.listed usedVideoKeys).map fun seg => (r, seg))[i]? with
      | none =>
          rw [hi] at hget
          cases hget
      | some entry =>
          rw [hi] at hget
          obtain rfl : entry = (r, seg) := by simpa using hget
          obtain ⟨r', -, hmem⟩ := List.mem_flatMap.mp (List.mem_of_getElem? hi)
          obtain ⟨seg', hseg, heq⟩ := List.mem_map.mp hmem
          obtain ⟨rfl, rfl⟩ := Prod.mk.inj heq
          exact LeRobotRepo.filesThere_of_listed hseg

/-! ## Two repositories of a task -/

def liftSegment : Segment := ⟨7, ["lift"], none, 0, 40⟩

/-- The latents of the second segment are missing. -/
def liftRepo : LeRobotRepo where
  name := "lift-demo".toList
  files :=
    [["data".toList, LeRobotRepo.chunkName 0,
        LeRobotRepo.episodeName 7 ++ LeRobotRepo.parquetSuffix],
      LeRobotRepo.latentFile 0 "camera".toList liftSegment]
  metaEpisodes :=
    [⟨7, ["lift"], [⟨some 0, some 40, none, none, none⟩, ⟨some 40, some 80, none, none, none⟩]⟩]

def pourRepo : LeRobotRepo := { liftRepo with name := "pour-demo".toList }

def reachSegment : Segment := ⟨12, ["lift"], some "reach", 5, 30⟩

def closeSegment : Segment := ⟨12, ["lift"], some "close", 30, 60⟩

/-- The second chunk of a repository, with both segments of an episode. -/
def liftAgainRepo : LeRobotRepo where
  name := "lift-again".toList
  files :=
    [["data".toList, LeRobotRepo.chunkName 1,
        LeRobotRepo.episodeName 12 ++ LeRobotRepo.parquetSuffix],
      LeRobotRepo.latentFile 1 "camera".toList closeSegment,
      LeRobotRepo.latentFile 1 "camera".toList reachSegment]
  metaEpisodes :=
    [⟨12, ["lift"], [⟨some 5, some 30, some "reach", none, none⟩,
      ⟨some 30, some 60, some "close", none, none⟩]⟩]

/-- The datasets of the task `lift`. -/
def liftDatasets : List LatentLeRobotDataset :=
  [⟨liftRepo, [liftSegment]⟩, ⟨liftAgainRepo, [reachSegment, closeSegment]⟩]

theorem construct_liftRepos :
    constructLerobotMultiProcessor ["camera".toList] (some "lift".toList)
      [liftRepo, pourRepo, liftAgainRepo] = some liftDatasets := rfl

theorem construct_indexes_lift :
    (MultiLatentLeRobotDataset.mk liftDatasets).Indexes ["camera".toList]
        [liftRepo, liftAgainRepo] ∧
      (MultiLatentLeRobotDataset.mk liftDatasets).getItem 2 =
        .ok (liftAgainRepo, closeSegment) := by
  have hindexes := construct_indexes construct_liftRepos
  exact ⟨hindexes, hindexes.items 2⟩

end MultiLatentLeRobotDataset

end P2PRdt.Robot
