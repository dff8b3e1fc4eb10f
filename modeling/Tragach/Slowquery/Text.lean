import Tragach.Slowquery.Output
import Tragach.Slowquery.Provenance

/-! # The text shown for a statement

The entry probe reads a NUL-terminated string of at most 511 bytes into a zeroed buffer
and stores the declared length beside it; userspace cuts the buffer at that length and at
the first NUL. Whatever the two lengths are, what is shown is the front of the
statement's own text.
-/

namespace Tragach.Slowquery

open Bpf Common Library

/-! ## User memory -/

def bytesAt (memory : UInt64 → UInt8) (ptr : UInt64) (k : Nat) : List UInt8 :=
  (List.range k).map fun i => memory (ptr + UInt64.ofNat i)

/-- The first NUL from the address on is at offset `n`. -/
def FirstNul (memory : UInt64 → UInt8) (ptr : UInt64) (n : Nat) : Prop :=
  memory (ptr + UInt64.ofNat n) = 0 ∧ ∀ i < n, memory (ptr + UInt64.ofNat i) ≠ 0

instance (memory : UInt64 → UInt8) (ptr : UInt64) (n : Nat) : Decidable (FirstNul memory ptr n) :=
  inferInstanceAs (Decidable (_ ∧ ∀ i < n, _))

@[simp] theorem length_bytesAt (memory : UInt64 → UInt8) (ptr : UInt64) (k : Nat) :
    (bytesAt memory ptr k).length = k := by simp [bytesAt]

theorem take_bytesAt (memory : UInt64 → UInt8) (ptr : UInt64) (j k : Nat) :
    (bytesAt memory ptr k).take j = bytesAt memory ptr (min j k) := by
  rw [bytesAt, ← List.map_take, List.take_range, bytesAt]

theorem length_overwritten {copied : List UInt8} (fits : copied.length ≤ SQL_MAX - 1) (buf : SqlBuf) :
    (copied ++ 0 :: buf.bytes.drop (copied.length + 1)).length = SQL_MAX := by
  have size : buf.bytes.length = 512 := buf.length_eq
  simp only [List.length_append, List.length_cons, List.length_drop, SQL_MAX, size] at fits ⊢
  omega

theorem length_bytesAt_le (memory : UInt64 → UInt8) (ptr : UInt64) (n : Nat) :
    (bytesAt memory ptr (min n (SQL_MAX - 1))).length ≤ SQL_MAX - 1 :=
  (length_bytesAt memory ptr _).trans_le (Nat.min_le_right n _)

/-- What `bpf_probe_read_user_str_bytes` does at an address whose first NUL is at offset
`n`: it copies up to 511 bytes, puts a NUL after them and returns what it copied. -/
def probeReadUserStrBytes (memory : UInt64 → UInt8) (ptr : UInt64) (n : Nat) (buf : SqlBuf) :
    UserStrRead :=
  let copied := bytesAt memory ptr (min n (SQL_MAX - 1))
  { buf := ⟨copied ++ 0 :: buf.bytes.drop (copied.length + 1),
      length_overwritten (length_bytesAt_le memory ptr n) buf⟩
    result := .ok copied }

/-- The entry reads its statement from this memory, up to a first NUL at offset `n`. -/
structure ReadsFrom (memory : UInt64 → UInt8) (n : Nat) (c : Ctx) : Prop where
  nonNull : c.regs.r8 ≠ 0
  zeroExtended : c.regs.rcx < 4294967296
  nul : FirstNul memory c.regs.r8 n
  helper : c.readUserStr c.regs.r8 SqlBuf.zeroed =
    probeReadUserStrBytes memory c.regs.r8 n SqlBuf.zeroed

/-- The length of the statement: the declared one, up to a NUL; 0 asks for the NUL. -/
def statementLength (length : UInt64) (n : Nat) : Nat :=
  if length = 0 then n else min length.toNat n

/-! ## What is captured -/

section

variable {memory : UInt64 → UInt8} {n : Nat} {c : Ctx}

theorem ReadsFrom.copiedLen_toNat (reads : ReadsFrom memory n c) : c.copiedLen.toNat = min n 511 := by
  have copied : c.copied = bytesAt memory c.regs.r8 (min n 511) := by
    rw [Ctx.copied, reads.helper]
    rfl
  rw [Ctx.copiedLen, copied, length_bytesAt, UInt32.toNat_ofNat']
  omega

theorem capture_sql (reads : ReadsFrom memory n c) :
    ∃ zeros, (capture c).sql.bytes = bytesAt memory c.regs.r8 (min n 511) ++ zeros ∧
      ∀ b ∈ zeros, b = 0 := by
  refine ⟨0 :: SqlBuf.zeroed.bytes.drop ((bytesAt memory c.regs.r8 (min n 511)).length + 1), ?_, ?_⟩
  · rw [capture_of_ne reads.nonNull, reads.helper]
    rfl
  · intro b mem
    rcases List.mem_cons.mp mem with first | rest
    · exact first
    · exact List.eq_of_mem_replicate (List.mem_of_mem_drop rest)

theorem capture_sqlLen (reads : ReadsFrom memory n c) :
    (capture c).sqlLen.toNat =
      if c.regs.rcx = 0 then min n 511 else c.regs.rcx.toNat := by
  have low : c.regs.rcx.toNat < 4294967296 := reads.zeroExtended
  rw [capture_of_ne reads.nonNull]
  dsimp only
  split
  next => exact reads.copiedLen_toNat
  next =>
      rw [UInt64.toNat_toUInt32]
      omega

theorem capture_sqlTruncated (reads : ReadsFrom memory n c) :
    (capture c).sqlTruncated ≠ 0 ↔ 511 ≤ n ∧ 511 < c.regs.rcx.toNat := by
  have full : c.copiedLen ≥ UInt32.ofNat SQL_MAX - 1 ↔ 511 ≤ min n 511 := by
    rw [ge_iff_le, UInt32.le_iff_toNat_le, reads.copiedLen_toNat]
    exact Iff.rfl
  have more : c.regs.rcx > c.copiedLen.toUInt64 ↔ min n 511 < c.regs.rcx.toNat := by
    rw [gt_iff_lt, UInt64.lt_iff_toNat_lt, UInt32.toNat_toUInt64, reads.copiedLen_toNat]
  rw [capture_of_ne reads.nonNull]
  dsimp only
  split
  next flagged =>
      have lengths := (and_congr full more).mp flagged
      exact iff_of_true (by decide) (by omega)
  next unflagged =>
      have lengths := mt (and_congr full more).mpr unflagged
      exact iff_of_false (fun ne => ne rfl) (by omega)

theorem sqlStr_of_capture (reads : ReadsFrom memory n c) {ev : SlowQueryEvent}
    (carries : eventText ev = (capture c).text) :
    sqlStr ev = bytesAt memory c.regs.r8 (min (statementLength c.regs.rcx n) 511) := by
  obtain ⟨zeros, buffer, zeroed⟩ := capture_sql reads
  have sql : ev.sql = (capture c).sql := congrArg SqlText.buf carries
  have len : ev.sqlLen = (capture c).sqlLen := congrArg SqlText.len carries
  have nulFree : ∀ b ∈ bytesAt memory c.regs.r8 (min n 511), b ≠ 0 := by
    intro b mem
    simp only [bytesAt, List.mem_map, List.mem_range] at mem
    rcases mem with ⟨i, lt, rfl⟩
    exact reads.nul.2 i (by omega)
  rw [sqlStr_of_text (by rw [sql, buffer]) nulFree zeroed, take_bytesAt, len, capture_sqlLen reads,
    statementLength]
  congr 1
  simp only [SQL_MAX]
  split <;> omega

end

theorem sqlStr_unknown {ev : SlowQueryEvent} (carries : eventText ev = .unknown) :
    sqlStr ev = [] := by
  have len : ev.sqlLen = 0 := congrArg SqlText.len carries
  rw [sqlStr_eq_takeWhile, len]
  rfl

/-- The events of a run are the labelled ones. Each shows the first bytes of the statement
that its origin was given, at most 511 of them, and nothing when it has no origin. -/
theorem sql_bytes_exact (L : Limits) (h : History) :
    ((tracer L).run h).events = (labelled L h).map Prod.fst ∧
      ∀ x ∈ labelled L h,
        (x.2 = none → (decodeEvent x.1.toBytes).map sqlStr = .ok []) ∧
          ∀ f c post pre, h = post ++ .entry f c :: pre → x.2 = some pre.length →
            ∀ memory n, ReadsFrom memory n c →
              (decodeEvent x.1.toBytes).map sqlStr =
                .ok (bytesAt memory c.regs.r8 (min (statementLength c.regs.rcx n) 511)) := by
  refine ⟨(labelled_events h).symm, fun x mem => ?_⟩
  have carries := labelled_carries mem
  rw [decodeEvent_toBytes]
  constructor
  · intro origin
    rw [origin] at carries
    exact congrArg Except.ok (sqlStr_unknown carries)
  · intro f c post pre split origin memory n reads
    rw [origin] at carries
    exact congrArg Except.ok (sqlStr_of_capture reads (CapturedAt.eq carries split rfl))

/-- `k` letters at the address 4096. -/
def letters (k : Nat) (a : UInt64) : UInt8 :=
  if 4096 ≤ a ∧ a < 4096 + UInt64.ofNat k then 65 else 0

/-- An entry given `k` letters and their declared length. -/
def entryOf (length : UInt64) (k : Nat) : Ctx :=
  { firing 7 10 { rsi := 1, rcx := length, r8 := 4096 } with
    readUserStr := fun ptr buf => probeReadUserStrBytes (letters k) ptr k buf }

def preparedRun (length : UInt64) (k : Nat) : History :=
  [.exit .execute (firing 7 40 {}),
    .entry .execute (firing 7 30 { rdx := 100 }),
    .exit .prepare (firing 7 20 { rax := 100 }),
    .entry .prepare (entryOf length k)]

def sixLetters : SlowQueryEvent := ⟨40, 10, 10, 1, 7, 6, 0, 0, (capture (entryOf 6 9)).sql⟩

theorem sixLetters_emitted : (sixLetters, some 0) ∈ labelled declared (preparedRun 6 9) := by
  decide +kernel

theorem entryOf_reads : ReadsFrom (letters 9) 9 (entryOf 6 9) :=
  ⟨by decide, by decide, by decide +kernel, rfl⟩

theorem preparedRun_split (length : UInt64) (k : Nat) :
    preparedRun length k =
      (preparedRun length k).take 3 ++ .entry .prepare (entryOf length k) :: [] := rfl

theorem unterminated_shown :
    (decodeEvent sixLetters.toBytes).map sqlStr = .ok [65, 65, 65, 65, 65, 65] :=
  ((sql_bytes_exact declared (preparedRun 6 9)).2 _ sixLetters_emitted).2 .prepare (entryOf 6 9)
    _ [] (preparedRun_split 6 9) rfl _ 9 entryOf_reads

/-! ## The truncation flag -/

def ProperPrefix (shown text : List UInt8) : Prop := shown <+: text ∧ shown ≠ text

instance (shown text : List UInt8) : Decidable (ProperPrefix shown text) :=
  inferInstanceAs (Decidable (_ ∧ _))

/-- The flag of the event and both outputs say whether the statement was cut. -/
def FlagExact (ev : SlowQueryEvent) (text : List UInt8) : Prop :=
  (ev.sqlTruncated ≠ 0 ↔ ProperPrefix (sqlStr ev) text) ∧
    ∀ att, ((writeJson ev att).truncated = true ↔ ProperPrefix (sqlStr ev) text) ∧
      ((writeHuman ev att).truncated = "..." ↔ ProperPrefix (sqlStr ev) text)

theorem flagExact_iff {ev : SlowQueryEvent} {text : List UInt8} :
    FlagExact ev text ↔ (ev.sqlTruncated ≠ 0 ↔ ProperPrefix (sqlStr ev) text) := by
  have json : ∀ att, (writeJson ev att).truncated = true ↔ ev.sqlTruncated ≠ 0 := by
    intro att
    simp [writeJson]
  have human : ∀ att, (writeHuman ev att).truncated = "..." ↔ ev.sqlTruncated ≠ 0 := by
    intro att
    by_cases flag : ev.sqlTruncated = 0 <;> simp [writeHuman, flag]
  constructor
  · intro exact
    exact exact.1
  · intro same
    exact ⟨same, fun att => ⟨(json att).trans same, (human att).trans same⟩⟩

theorem properPrefix_bytesAt (memory : UInt64 → UInt8) (ptr : UInt64) (m : Nat) :
    ProperPrefix (bytesAt memory ptr (min m 511)) (bytesAt memory ptr m) ↔ 511 < m := by
  have front : bytesAt memory ptr (min m 511) <+: bytesAt memory ptr m := by
    rw [Nat.min_comm, ← take_bytesAt]
    exact List.take_prefix ..
  constructor
  · intro proper
    by_contra le
    exact proper.2 (congrArg (bytesAt memory ptr) (by omega))
  · intro lt
    refine ⟨front, fun same => ?_⟩
    have lengths := congrArg List.length same
    rw [length_bytesAt, length_bytesAt] at lengths
    omega

/-- The flag is exact unless a statement without a declared length is longer than 511
bytes, or one of 511 bytes is declared longer. -/
theorem truncation_flag_iff {L : Limits} {h : History} {x : SlowQueryEvent × Option Nat}
    (mem : x ∈ labelled L h) {f : Fn} {c : Ctx} {post pre : History}
    (split : h = post ++ .entry f c :: pre) (origin : x.2 = some pre.length)
    {memory : UInt64 → UInt8} {n : Nat} (reads : ReadsFrom memory n c) :
    FlagExact x.1 (bytesAt memory c.regs.r8 (statementLength c.regs.rcx n)) ↔
      ¬ (c.regs.rcx = 0 ∧ 511 < n) ∧ ¬ (511 < c.regs.rcx.toNat ∧ n = 511) := by
  have carries := labelled_carries mem
  rw [origin] at carries
  have text : eventText x.1 = (capture c).text := CapturedAt.eq carries split rfl
  have flag : x.1.sqlTruncated = (capture c).sqlTruncated := congrArg SqlText.truncated text
  rw [flagExact_iff, flag, capture_sqlTruncated reads, sqlStr_of_capture reads text,
    properPrefix_bytesAt, statementLength]
  by_cases strlen : c.regs.rcx = 0
  · simp only [strlen, if_true, true_and, UInt64.toNat_zero]
    omega
  · simp only [strlen, if_false, false_and, not_false_eq_true, true_and]
    omega

def cutLetters : SlowQueryEvent := ⟨40, 10, 10, 1, 7, 600, 1, 0, (capture (entryOf 600 600)).sql⟩

theorem cutLetters_emitted : (cutLetters, some 0) ∈ labelled declared (preparedRun 600 600) := by
  decide +kernel

theorem entryOf_reads_cut : ReadsFrom (letters 600) 600 (entryOf 600 600) :=
  ⟨by decide, by decide, by decide +kernel, rfl⟩

theorem counted_flag :
    cutLetters.sqlTruncated = 1 ∧ FlagExact cutLetters (bytesAt (letters 600) 4096 600) :=
  ⟨rfl, (truncation_flag_iff cutLetters_emitted (preparedRun_split 600 600) rfl
    entryOf_reads_cut).mpr (by decide)⟩

/-- A statement of 600 bytes without a declared length is cut at 511 and not flagged, and
one of 511 bytes that is declared as 600 is complete and flagged. -/
theorem uncounted_flag :
    (labelled declared (preparedRun 0 600)).map
        (fun x => (x.1.sqlTruncated, (sqlStr x.1).length, (writeJson x.1 none).truncated)) =
        [(0, 511, false)] ∧
      (∀ x ∈ labelled declared (preparedRun 0 600),
        ¬ FlagExact x.1 (bytesAt (letters 600) 4096 (statementLength 0 600))) ∧
      (labelled declared (preparedRun 600 511)).map
        (fun x => (x.1.sqlTruncated, (sqlStr x.1).length, (writeJson x.1 none).truncated)) =
        [(1, 511, true)] ∧
      ∀ x ∈ labelled declared (preparedRun 600 511),
        ¬ FlagExact x.1 (bytesAt (letters 511) 4096 (statementLength 600 511)) := by
  simp only [flagExact_iff]
  refine ⟨?_, ?_, ?_, ?_⟩ <;> decide +kernel

end Tragach.Slowquery
