import Tragach.Library.Numbering
import Tragach.Slowquery.EventLoop

/-! # What the event loop prints of any records

The loop is a filter: of every record that is long enough and not below the threshold it
prints one line, and it counts the records that are too short. The attachments of the
printed lines are numbered as they first appear.
-/

namespace Tragach.Slowquery

open Bpf Common Library

/-- The loop over `ring.next()`, with the lines it prints. -/
def runEventLoop (args : Args) (records : List (List UInt8)) :
    LoopState × List (Outcome (JsonEvent ⊕ HumanEvent)) :=
  records.foldl
    (fun acc bytes =>
      let (st, outcome) := handleRecord args acc.1 bytes
      (st, acc.2 ++ [outcome]))
    (⟨[], 0, 0⟩, [])

def printedLines (args : Args) (records : List (List UInt8)) : List (JsonEvent ⊕ HumanEvent) :=
  (runEventLoop args records).2.filterMap Outcome.line

/-! ## What is printed -/

/-- The event of a record that is long enough and not below the threshold. -/
def keptEvent (args : Args) (bytes : List UInt8) : Option SlowQueryEvent :=
  if enough : SlowQueryEvent.size ≤ bytes.length then
    let ev := SlowQueryEvent.read bytes enough
    if args.threshold.any fun t => ev.executeNs < t then none else some ev
  else none

def kept (args : Args) (records : List (List UInt8)) : List SlowQueryEvent :=
  records.filterMap (keptEvent args)

def pointers (args : Args) (records : List (List UInt8)) : List UInt64 :=
  ((kept args records).map SlowQueryEvent.attachmentId).filter (· ≠ 0)

def short (records : List (List UInt8)) : List (List UInt8) :=
  records.filter fun bytes => bytes.length < SlowQueryEvent.size

def eventLine (args : Args) (ev : SlowQueryEvent) (att : Option UInt32) : JsonEvent ⊕ HumanEvent :=
  if args.json then .inl (writeJson ev att) else .inr (writeHuman ev att)

def smallIdOf (ptrs : List UInt64) (attachmentId : UInt64) : Option UInt32 :=
  if attachmentId = 0 then none else some (UInt32.ofNat (number ptrs attachmentId))

/-! ## The invariant of the loop -/

/-- The variables of the loop and its lines after some records. -/
structure Numbered (args : Args) (records : List (List UInt8)) : Prop where
  table : ∀ ptr, (runEventLoop args records).1.idTable.lookup ptr =
    if ptr ∈ pointers args records then some (UInt32.ofNat (number (pointers args records) ptr))
    else none
  nextId : (runEventLoop args records).1.nextId =
    UInt32.ofNat (firsts (pointers args records)).length
  dropped : (runEventLoop args records).1.dropped = UInt64.ofNat (short records).length
  lines : printedLines args records =
    (kept args records).map fun ev =>
      eventLine args ev (smallIdOf (pointers args records) ev.attachmentId)

theorem runEventLoop_concat (args : Args) (records : List (List UInt8)) (bytes : List UInt8) :
    runEventLoop args (records ++ [bytes]) =
      ((handleRecord args (runEventLoop args records).1 bytes).1,
        (runEventLoop args records).2 ++ [(handleRecord args (runEventLoop args records).1 bytes).2]) := by
  rw [runEventLoop, List.foldl_append]
  rfl

/-- What the loop does with one record, by the three ways out of its body. -/
theorem handleRecord_cases (args : Args) (st : LoopState) (bytes : List UInt8) :
    (bytes.length < SlowQueryEvent.size ∧ keptEvent args bytes = none ∧
        handleRecord args st bytes = ({ st with dropped := st.dropped + 1 }, .dropped)) ∨
      (SlowQueryEvent.size ≤ bytes.length ∧ keptEvent args bytes = none ∧
        handleRecord args st bytes = (st, .suppressed)) ∨
      ∃ ev, SlowQueryEvent.size ≤ bytes.length ∧ keptEvent args bytes = some ev ∧
        handleRecord args st bytes =
          if ev.attachmentId = 0 then (st, .printed (eventLine args ev none))
          else ((st.smallId ev.attachmentId).1,
            .printed (eventLine args ev (some (st.smallId ev.attachmentId).2))) := by
  by_cases enough : SlowQueryEvent.size ≤ bytes.length
  · by_cases below : args.threshold.any fun t => (SlowQueryEvent.read bytes enough).executeNs < t
    · refine .inr (.inl ⟨enough, ?_, ?_⟩)
      · rw [keptEvent, dif_pos enough]
        exact if_pos below
      · rw [handleRecord, decodeEvent, dif_pos enough]
        exact if_pos below
    · refine .inr (.inr ⟨.read bytes enough, enough, ?_, ?_⟩)
      · rw [keptEvent, dif_pos enough]
        exact if_neg below
      · rw [handleRecord, decodeEvent, dif_pos enough]
        exact if_neg below
  · refine .inl ⟨Nat.lt_of_not_le enough, ?_, ?_⟩
    · rw [keptEvent, dif_neg enough]
    · rw [handleRecord, decodeEvent, dif_neg enough]

section

variable {args : Args} {records : List (List UInt8)} {bytes : List UInt8}

theorem kept_concat (args : Args) (records : List (List UInt8)) (bytes : List UInt8) :
    kept args (records ++ [bytes]) = kept args records ++ (keptEvent args bytes).toList := by
  rw [kept, List.filterMap_append, kept]
  cases event : keptEvent args bytes <;> simp [event]

theorem printedLines_concat (args : Args) (records : List (List UInt8)) (bytes : List UInt8) :
    printedLines args (records ++ [bytes]) = printedLines args records ++
      (handleRecord args (runEventLoop args records).1 bytes).2.line.toList := by
  rw [printedLines, runEventLoop_concat, List.filterMap_append, printedLines]
  cases line : (handleRecord args (runEventLoop args records).1 bytes).2.line <;> simp [line]

theorem pointers_concat (args : Args) (records : List (List UInt8)) (bytes : List UInt8) :
    pointers args (records ++ [bytes]) =
      pointers args records ++
        ((keptEvent args bytes).toList.map SlowQueryEvent.attachmentId).filter (· ≠ 0) := by
  rw [pointers, kept_concat, List.map_append, List.filter_append, pointers]

theorem short_concat (records : List (List UInt8)) (bytes : List UInt8) :
    short (records ++ [bytes]) =
      short records ++ if bytes.length < SlowQueryEvent.size then [bytes] else [] := by
  rw [short, List.filter_append, short]
  split
  next brief => rw [List.filter_cons_of_pos (by simpa using brief), List.filter_nil]
  next full => rw [List.filter_cons_of_neg (by simpa using full), List.filter_nil]

/-- Ids given to earlier lines are those of the longer run. -/
theorem smallIdOf_concat {ev : SlowQueryEvent} (printed : ev ∈ kept args records) (ptr : UInt64) :
    smallIdOf (pointers args records ++ [ptr]) ev.attachmentId =
      smallIdOf (pointers args records) ev.attachmentId := by
  unfold smallIdOf
  split
  next => rfl
  next nonzero =>
      have mem : ev.attachmentId ∈ pointers args records :=
        List.mem_filter.mpr ⟨List.mem_map_of_mem printed, by simpa using nonzero⟩
      rw [number_concat mem]

theorem Numbered.skip (numbered : Numbered args records) (notKept : keptEvent args bytes = none)
    {st : LoopState} {outcome : Outcome (JsonEvent ⊕ HumanEvent)}
    (handled : handleRecord args (runEventLoop args records).1 bytes = (st, outcome))
    (table : st.idTable = (runEventLoop args records).1.idTable)
    (nextId : st.nextId = (runEventLoop args records).1.nextId)
    (dropped : st.dropped = UInt64.ofNat (short (records ++ [bytes])).length)
    (silent : outcome.line = none) : Numbered args (records ++ [bytes]) := by
  have kept_eq : kept args (records ++ [bytes]) = kept args records := by
    rw [kept_concat, notKept, Option.toList_none, List.append_nil]
  have pointers_eq : pointers args (records ++ [bytes]) = pointers args records := by
    rw [pointers, kept_eq, pointers]
  constructor
  · intro ptr
    rw [runEventLoop_concat, handled, table, pointers_eq]
    exact numbered.table ptr
  · rw [runEventLoop_concat, handled, nextId, pointers_eq]
    exact numbered.nextId
  · rw [runEventLoop_concat, handled, dropped]
  · rw [printedLines_concat, handled, silent, kept_eq, pointers_eq, numbered.lines]
    exact List.append_nil _

theorem smallId_of_some {st : LoopState} {ptr : UInt64} {id : UInt32}
    (found : st.idTable.lookup ptr = some id) : st.smallId ptr = (st, id) := by
  rw [LoopState.smallId, found]

theorem smallId_of_none {st : LoopState} {ptr : UInt64} (missing : st.idTable.lookup ptr = none) :
    st.smallId ptr =
      ({ st with idTable := (ptr, st.nextId + 1) :: st.idTable, nextId := st.nextId + 1 },
        st.nextId + 1) := by
  rw [LoopState.smallId, missing]

/-- The id that an attachment is given is its number. -/
theorem Numbered.smallId (numbered : Numbered args records) (ptr : UInt64) :
    ((runEventLoop args records).1.smallId ptr).2 =
      UInt32.ofNat (number (pointers args records ++ [ptr]) ptr) := by
  have entry := numbered.table ptr
  by_cases seen : ptr ∈ pointers args records
  · rw [if_pos seen] at entry
    rw [smallId_of_some entry, number_concat seen]
  · rw [if_neg seen] at entry
    rw [smallId_of_none entry, number_concat_self seen, numbered.nextId, UInt32.ofNat_add]
    rfl

theorem Numbered.noted (numbered : Numbered args records) (ptr : UInt64) :
    (∀ ptr', ((runEventLoop args records).1.smallId ptr).1.idTable.lookup ptr' =
      if ptr' ∈ pointers args records ++ [ptr] then
        some (UInt32.ofNat (number (pointers args records ++ [ptr]) ptr'))
      else none) ∧
      ((runEventLoop args records).1.smallId ptr).1.nextId =
        UInt32.ofNat (firsts (pointers args records ++ [ptr])).length := by
  have entry := numbered.table ptr
  by_cases seen : ptr ∈ pointers args records
  · rw [if_pos seen] at entry
    rw [smallId_of_some entry, firsts_concat_of_mem seen]
    refine ⟨fun ptr' => ?_, numbered.nextId⟩
    rw [numbered.table ptr']
    by_cases seen' : ptr' ∈ pointers args records
    · rw [if_pos seen', if_pos (List.mem_append_left _ seen'), number_concat seen']
    · have other : ptr' ≠ ptr := fun same => seen' (same ▸ seen)
      rw [if_neg seen', if_neg (by simp [seen', other])]
  · have id := numbered.smallId ptr
    rw [if_neg seen] at entry
    rw [smallId_of_none entry] at id ⊢
    dsimp only at id ⊢
    constructor
    · intro ptr'
      rw [List.lookup_cons]
      by_cases same : ptr' = ptr
      · subst same
        simp [id]
      · rw [beq_false_of_ne same, numbered.table ptr']
        by_cases seen' : ptr' ∈ pointers args records
        · simp [seen', number_concat seen']
        · simp [seen', same]
    · rw [firsts_concat_of_notMem seen, List.length_append, List.length_singleton,
        UInt32.ofNat_add, ← numbered.nextId]
      rfl

theorem dropped_smallId (st : LoopState) (ptr : UInt64) : (st.smallId ptr).1.dropped = st.dropped := by
  unfold LoopState.smallId
  split <;> rfl

theorem Numbered.print (numbered : Numbered args records) {ev : SlowQueryEvent}
    (full : SlowQueryEvent.size ≤ bytes.length) (event : keptEvent args bytes = some ev)
    (handled : handleRecord args (runEventLoop args records).1 bytes =
      if ev.attachmentId = 0 then
        ((runEventLoop args records).1, .printed (eventLine args ev none))
      else (((runEventLoop args records).1.smallId ev.attachmentId).1,
        .printed (eventLine args ev
          (some ((runEventLoop args records).1.smallId ev.attachmentId).2)))) :
    Numbered args (records ++ [bytes]) := by
  have short_eq : short (records ++ [bytes]) = short records := by
    rw [short_concat, if_neg (Nat.not_lt.mpr full), List.append_nil]
  have kept_eq : kept args (records ++ [bytes]) = kept args records ++ [ev] := by
    rw [kept_concat, event, Option.toList_some]
  by_cases unknown : ev.attachmentId = 0
  · have pointers_eq : pointers args (records ++ [bytes]) = pointers args records := by
      rw [pointers_concat, event]
      simp [unknown]
    rw [if_pos unknown] at handled
    constructor
    · rw [runEventLoop_concat, handled, pointers_eq]
      exact numbered.table
    · rw [runEventLoop_concat, handled, pointers_eq]
      exact numbered.nextId
    · rw [runEventLoop_concat, handled, short_eq]
      exact numbered.dropped
    · rw [printedLines_concat, handled, kept_eq, pointers_eq, numbered.lines, List.map_append]
      simp [Outcome.line, smallIdOf, unknown]
  · have pointers_eq : pointers args (records ++ [bytes]) =
        pointers args records ++ [ev.attachmentId] := by
      rw [pointers_concat, event]
      simp [unknown]
    rw [if_neg unknown] at handled
    have earlier : (kept args records).map (fun ev' => eventLine args ev'
        (smallIdOf (pointers args records ++ [ev.attachmentId]) ev'.attachmentId)) =
          printedLines args records := by
      rw [numbered.lines]
      exact List.map_congr_left fun ev' printed => by rw [smallIdOf_concat printed]
    constructor
    · rw [runEventLoop_concat, handled, pointers_eq]
      exact (numbered.noted ev.attachmentId).1
    · rw [runEventLoop_concat, handled, pointers_eq]
      exact (numbered.noted ev.attachmentId).2
    · rw [runEventLoop_concat, handled, short_eq]
      exact (dropped_smallId _ _).trans numbered.dropped
    · rw [printedLines_concat, handled, kept_eq, pointers_eq, List.map_append, earlier]
      simp [Outcome.line, smallIdOf, unknown, numbered.smallId]

end

theorem numbered (args : Args) (records : List (List UInt8)) : Numbered args records := by
  induction records using List.reverseRecOn with
  | nil => exact ⟨fun _ => rfl, rfl, rfl, rfl⟩
  | append_singleton records bytes ih =>
      rcases handleRecord_cases args (runEventLoop args records).1 bytes with
        ⟨brief, notKept, handled⟩ | ⟨full, notKept, handled⟩ | ⟨ev, full, event, handled⟩
      · refine ih.skip notKept handled rfl rfl ?_ rfl
        rw [short_concat, if_pos brief, List.length_append, List.length_singleton,
          UInt64.ofNat_add, ← ih.dropped]
        rfl
      · refine ih.skip notKept handled rfl rfl ?_ rfl
        rw [short_concat, if_neg (Nat.not_lt.mpr full), List.append_nil]
        exact ih.dropped
      · exact ih.print full event handled

/-! ## The loop as a filter -/

theorem toNat_number {args : Args} {records : List (List UInt8)}
    (few : (pointers args records).toFinset.card < 2 ^ 32) {ptr : UInt64}
    (seen : ptr ∈ pointers args records) :
    (UInt32.ofNat (number (pointers args records) ptr)).toNat =
      number (pointers args records) ptr := by
  have bound : number (pointers args records) ptr ≤ (pointers args records).toFinset.card :=
    ((bijOn_number _).mapsTo seen).2
  exact UInt32.toNat_ofNat_of_lt' (bound.trans_lt few)

/-- Of any records the loop prints one line for each that is long enough and not below the
threshold, with no id when it has no attachment; the ids of the other lines and their
attachments correspond to each other, in the order of first appearance. -/
theorem loop_numbers_attachments {args : Args} {records : List (List UInt8)}
    (few : (pointers args records).toFinset.card < 2 ^ 32) :
    ∃ id : UInt64 → UInt32,
      printedLines args records = (kept args records).map (fun ev =>
          eventLine args ev (if ev.attachmentId = 0 then none else some (id ev.attachmentId))) ∧
        (∀ line, .inl line ∈ printedLines args records → line.att = line.attPtr.map id) ∧
        (runEventLoop args records).1.dropped = UInt64.ofNat (short records).length ∧
        Set.BijOn (fun ptr => (id ptr).toNat) {ptr | ptr ∈ pointers args records}
          (Set.Icc 1 (pointers args records).toFinset.card) ∧
        ∀ ptr ∈ pointers args records, ∀ ptr' ∈ pointers args records,
          id ptr < id ptr' ↔
            (pointers args records).idxOf ptr < (pointers args records).idxOf ptr' := by
  have loop := numbered args records
  refine ⟨fun ptr => UInt32.ofNat (number (pointers args records) ptr), loop.lines, ?_,
    loop.dropped, ?_, fun ptr seen ptr' seen' => ?_⟩
  · intro line mem
    rw [loop.lines, List.mem_map] at mem
    rcases mem with ⟨ev, -, printed⟩
    unfold eventLine at printed
    split at printed
    next =>
        cases printed
        by_cases unknown : ev.attachmentId = 0 <;> simp [writeJson, smallIdOf, unknown]
    next => cases printed
  · exact (bijOn_number _).congr fun ptr seen => (toNat_number few seen).symm
  · rw [UInt32.lt_iff_toNat_lt, toNat_number few seen, toNat_number few seen']
    exact number_lt_iff seen seen'

def recordOf (attachmentId executeNs : UInt64) : List UInt8 :=
  SlowQueryEvent.toBytes
    { tsNs := 0
      prepareNs := 0
      executeNs := executeNs
      attachmentId := attachmentId
      tid := 1
      sqlLen := 0
      sqlTruncated := 0
      pad := 0
      sql := .zeroed }

/-- Two attachments, one of them twice, an execution without one, one below the threshold
and a record that is too short. -/
def mixedRecords : List (List UInt8) :=
  [recordOf 9 50, recordOf 5 10, List.replicate 559 1, recordOf 0 50, recordOf 7 60, recordOf 9 70]

theorem mixedRecords_numbered :
    ∃ id : UInt64 → UInt32,
      printedLines ⟨some 50, true⟩ mixedRecords = (kept ⟨some 50, true⟩ mixedRecords).map (fun ev =>
          eventLine ⟨some 50, true⟩ ev
            (if ev.attachmentId = 0 then none else some (id ev.attachmentId))) ∧
        Set.BijOn (fun ptr => (id ptr).toNat) {ptr | ptr ∈ pointers ⟨some 50, true⟩ mixedRecords}
          (Set.Icc 1 (pointers ⟨some 50, true⟩ mixedRecords).toFinset.card) := by
  have few : (pointers ⟨some 50, true⟩ mixedRecords).toFinset.card < 2 ^ 32 := by decide +kernel
  rcases loop_numbers_attachments few with ⟨id, lines, _, _, numbers, _⟩
  exact ⟨id, lines, numbers⟩

example :
    (printedLines ⟨some 50, true⟩ mixedRecords).map
        (fun line => line.elim (fun json => (json.attPtr, json.att)) fun _ => (none, none)) =
      [(some 9, some 1), (none, none), (some 7, some 2), (some 9, some 1)] ∧
      (runEventLoop ⟨some 50, true⟩ mixedRecords).1.dropped = 1 := by
  decide +kernel

end Tragach.Slowquery
