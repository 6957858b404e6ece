import Mathlib.Data.Nat.Digits.Defs

/-!
# Messages on a byte stream

A stream has no boundaries between messages, so each is preceded by its length,
in a fixed number of bytes. The bytes reach the reader in pieces of any size, and
the last ones may never do. `Carries` relates what the reader has before it to the
messages it has still to read: it survives each write, each arrival and each read,
and a reader that has enough bytes for its next read gets those of one message.
-/

namespace P2PRdt.Lib

/-- `int.to_bytes`, little-endian, of a number that fits. -/
def littleEndian : ℕ → ℕ → List UInt8
  | 0, _ => []
  | width + 1, n => UInt8.ofNat n :: littleEndian width (n / 256)

/-- `int.from_bytes`. -/
def ofLittleEndian (bytes : List UInt8) : ℕ := Nat.ofDigits 256 (bytes.map UInt8.toNat)

theorem length_littleEndian (width n : ℕ) : (littleEndian width n).length = width := by
  induction width generalizing n with
  | zero => rfl
  | succ width ih => rw [littleEndian, List.length_cons, ih]

theorem ofLittleEndian_littleEndian {width n : ℕ} (h : n < 256 ^ width) :
    ofLittleEndian (littleEndian width n) = n := by
  induction width generalizing n with
  | zero =>
      rw [Nat.pow_zero, Nat.lt_one_iff] at h
      rw [h]
      rfl
  | succ width ih =>
      have hrest : n / 256 < 256 ^ width := by
        rw [Nat.div_lt_iff_lt_mul (by decide), ← Nat.pow_succ]
        exact h
      have htail := ih hrest
      rw [ofLittleEndian] at htail
      rw [ofLittleEndian, littleEndian, List.map_cons, Nat.ofDigits_cons, htail, UInt8.toNat_ofNat']
      exact Nat.mod_add_div n 256

/-! ## Messages -/

/-- A message with its length before it; a length that does not fit raises. -/
def frameBytes (width : ℕ) (msg : List UInt8) : Option (List UInt8) :=
  if msg.length < 256 ^ width then some (littleEndian width msg.length ++ msg) else none

/-- What the reader reads next: a length, or the message of that length. -/
inductive ReadPhase where
  | length
  | body (n : ℕ)
deriving DecidableEq, Repr

def ReadPhase.size (width : ℕ) : ReadPhase → ℕ
  | .length => width
  | .body n => n

/-- The bytes are those of the messages, from the place where the reader is. -/
inductive Framed (width : ℕ) : ReadPhase → List UInt8 → List (List UInt8) → Prop
  | nil : Framed width .length [] []
  | length {msg bytes more : List UInt8} {msgs : List (List UInt8)} :
      frameBytes width msg = some more → Framed width .length bytes msgs →
      Framed width .length (more ++ bytes) (msg :: msgs)
  | body {msg bytes : List UInt8} {msgs : List (List UInt8)} : Framed width .length bytes msgs →
      Framed width (.body msg.length) (msg ++ bytes) (msg :: msgs)

section Framed

variable {width n : ℕ} {phase : ReadPhase} {bytes bytes' more msg : List UInt8}
  {msgs : List (List UInt8)}

theorem Framed.write (hmsg : frameBytes width msg = some more) (h : Framed width phase bytes msgs) :
    Framed width phase (bytes ++ more) (msgs ++ [msg]) := by
  induction h with
  | nil =>
      have hframed : Framed width .length (more ++ []) [msg] := .length hmsg .nil
      rwa [List.append_nil] at hframed
  | length hfirst _ ih =>
      rw [List.append_assoc]
      exact .length hfirst ih
  | body _ ih =>
      rw [List.append_assoc]
      exact .body ih

/-- A length that is there is the length of the next message. -/
theorem Framed.readLength (hwidth : 0 < width) (hlen : bytes.length = width)
    (h : Framed width .length (bytes ++ bytes') msgs) :
    Framed width (.body (ofLittleEndian bytes)) bytes' msgs := by
  generalize hall : bytes ++ bytes' = all at h
  cases h with
  | nil =>
      rw [(List.append_eq_nil_iff.mp hall).1] at hlen
      exact absurd hlen hwidth.ne
  | @length msg rest more msgs hmsg hrest =>
      rw [frameBytes] at hmsg
      split at hmsg
      · next hfits =>
        obtain rfl := Option.some.inj hmsg
        rw [List.append_assoc] at hall
        obtain ⟨rfl, rfl⟩ := List.append_inj hall (hlen.trans (length_littleEndian _ _).symm)
        rw [ofLittleEndian_littleEndian hfits]
        exact .body hrest
      · cases hmsg

/-- A message that is there is the next one. -/
theorem Framed.readBody (hlen : bytes.length = n)
    (h : Framed width (.body n) (bytes ++ bytes') msgs) :
    ∃ rest, msgs = bytes :: rest ∧ Framed width .length bytes' rest := by
  generalize hall : bytes ++ bytes' = all at h
  cases h with
  | @body msg rest msgs hrest =>
      obtain ⟨rfl, rfl⟩ := List.append_inj hall hlen
      exact ⟨msgs, rfl, hrest⟩

/-- As long as there is a message, there is enough for the next read. -/
theorem Framed.size_le (h : Framed width phase bytes msgs) (hne : msgs ≠ []) :
    phase.size width ≤ bytes.length := by
  cases h with
  | nil => exact absurd rfl hne
  | @length msg rest more msgs hmsg _ =>
      rw [frameBytes] at hmsg
      split at hmsg
      · obtain rfl := Option.some.inj hmsg
        simp only [ReadPhase.size, List.length_append, length_littleEndian]
        omega
      · cases hmsg
  | body => exact List.length_append ▸ Nat.le_add_right _ _

end Framed

/-! ## One direction of a connection -/

/-- `inFlight` was written and has not arrived; `buffer` has arrived and was not
read. `closed` says that nothing more gets in, `eof` that the reader knows. -/
structure Pipe where
  inFlight : List UInt8 := []
  buffer : List UInt8 := []
  closed : Bool := false
  eof : Bool := false
deriving DecidableEq, Repr

/-- What becomes of `readexactly`. -/
inductive ReadResult where
  | waits
  | incomplete
  | bytes (data : List UInt8) (pipe : Pipe)

namespace Pipe

def write (p : Pipe) (data : List UInt8) : Pipe :=
  if p.closed then p else { p with inFlight := p.inFlight ++ data }

def close (p : Pipe) : Pipe := { p with closed := true }

/-- The first `n` bytes arrive. -/
def deliver (p : Pipe) (n : ℕ) : Pipe :=
  { p with inFlight := p.inFlight.drop n, buffer := p.buffer ++ p.inFlight.take n }

/-- The connection is lost, with the bytes on their way. -/
def cut (p : Pipe) : Pipe := { p with inFlight := [], closed := true, eof := true }

def feedEof (p : Pipe) : Pipe := { p with eof := true }

def readexactly (p : Pipe) (n : ℕ) : ReadResult :=
  if n ≤ p.buffer.length then .bytes (p.buffer.take n) { p with buffer := p.buffer.drop n }
  else if p.eof then .incomplete else .waits

/-- What is in the pipe, and what was lost of it, are the messages. -/
def Carries (width : ℕ) (phase : ReadPhase) (p : Pipe) (msgs : List (List UInt8)) : Prop :=
  ∃ lost, Framed width phase (p.buffer ++ p.inFlight ++ lost) msgs ∧ (p.closed = false → lost = [])

variable {width n : ℕ} {phase : ReadPhase} {p p' : Pipe} {data more msg : List UInt8}
  {msgs : List (List UInt8)}

theorem carries_empty (width : ℕ) : Carries width .length {} [] := ⟨[], .nil, fun _ => rfl⟩

theorem Carries.write (hmsg : frameBytes width msg = some more) (h : Carries width phase p msgs) :
    Carries width phase (p.write more) (msgs ++ [msg]) := by
  obtain ⟨lost, hframed, hlost⟩ := h
  have hmore := hframed.write hmsg
  rw [Pipe.write]
  split
  · next hclosed =>
    refine ⟨lost ++ more, ?_, fun hopen => absurd (hclosed.symm.trans hopen) Bool.noConfusion⟩
    rwa [List.append_assoc] at hmore
  · next hopen =>
    obtain rfl := hlost (Bool.not_eq_true _ ▸ hopen)
    refine ⟨[], ?_, fun _ => rfl⟩
    rw [List.append_nil] at hmore ⊢
    rwa [List.append_assoc] at hmore

theorem Carries.close (h : Carries width phase p msgs) : Carries width phase p.close msgs := by
  obtain ⟨lost, hframed, -⟩ := h
  exact ⟨lost, hframed, fun hopen => absurd hopen Bool.noConfusion⟩

theorem Carries.deliver (n : ℕ) (h : Carries width phase p msgs) :
    Carries width phase (p.deliver n) msgs := by
  obtain ⟨lost, hframed, hlost⟩ := h
  refine ⟨lost, ?_, hlost⟩
  rwa [Pipe.deliver, List.append_assoc p.buffer, List.take_append_drop]

theorem Carries.cut (h : Carries width phase p msgs) : Carries width phase p.cut msgs := by
  obtain ⟨lost, hframed, -⟩ := h
  refine ⟨p.inFlight ++ lost, ?_, fun hopen => absurd hopen Bool.noConfusion⟩
  rwa [Pipe.cut, List.append_nil, ← List.append_assoc]

theorem Carries.feedEof (h : Carries width phase p msgs) : Carries width phase p.feedEof msgs := h

theorem readexactly_eq_bytes (h : p.readexactly n = .bytes data p') :
    p.buffer = data ++ p'.buffer ∧ data.length = n ∧ p' = { p with buffer := p'.buffer } := by
  rw [readexactly] at h
  split at h
  · next hle =>
    cases h
    exact ⟨(List.take_append_drop n p.buffer).symm, List.length_take_of_le hle, rfl⟩
  · split at h <;> cases h

theorem Carries.readLength (hwidth : 0 < width) (hread : p.readexactly width = .bytes data p')
    (h : Carries width .length p msgs) : Carries width (.body (ofLittleEndian data)) p' msgs := by
  obtain ⟨hbuffer, hlen, hp⟩ := readexactly_eq_bytes hread
  obtain ⟨lost, hframed, hlost⟩ := h
  rw [hbuffer, List.append_assoc, List.append_assoc] at hframed
  refine ⟨lost, ?_, ?_⟩
  · rw [hp, List.append_assoc]
    exact hframed.readLength hwidth hlen
  · rw [hp]
    exact hlost

/-- **A message is read as it was written.** -/
theorem Carries.readBody (hread : p.readexactly n = .bytes data p')
    (h : Carries width (.body n) p msgs) :
    ∃ rest, msgs = data :: rest ∧ Carries width .length p' rest := by
  obtain ⟨hbuffer, hlen, hp⟩ := readexactly_eq_bytes hread
  obtain ⟨lost, hframed, hlost⟩ := h
  rw [hbuffer, List.append_assoc, List.append_assoc] at hframed
  obtain ⟨rest, hmsgs, hrest⟩ := hframed.readBody hlen
  refine ⟨rest, hmsgs, lost, ?_, ?_⟩
  · rw [hp, List.append_assoc]
    exact hrest
  · rw [hp]
    exact hlost

/-- When all has arrived, a reader with a message before it does not wait. -/
theorem Carries.readexactly_of_arrived (h : Carries width phase p msgs) (hne : msgs ≠ [])
    (hopen : p.closed = false) (harrived : p.inFlight = []) :
    p.readexactly (phase.size width) ≠ .waits := by
  obtain ⟨lost, hframed, hlost⟩ := h
  rw [hlost hopen, harrived, List.append_nil, List.append_nil] at hframed
  rw [readexactly, if_pos (hframed.size_le hne)]
  exact ReadResult.noConfusion

end Pipe

end P2PRdt.Lib
