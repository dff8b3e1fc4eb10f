import Tragach.Common.Event
import Tragach.Library.Slots
import Tragach.Library.TextScan

/-! # Finding the functions to probe

The tools find the functions they attach to in a symbol table, by the prefixes of their
mangled names. A table is accepted when each of a tool's functions has one address in it;
clones in cold sections do not count, and aliases at the same address count once.
-/

namespace Tragach

open Library

inductive SymbolKind where
  | text
  /-- Data, sections, files and all other kinds. -/
  | notText
  deriving DecidableEq

/-- A symbol of an ELF file; its name may be unreadable. -/
structure Symbol where
  kind : SymbolKind
  name : Option String
  address : UInt64

/-- The functions a tool looks for, in the order of its if/else-if chain and in the order
in which it reports a missing one. No name has the prefixes of two of them. -/
structure Resolver (τ : Type) where
  chain : List τ
  fields : List τ
  label : τ → String
  prefixes : τ → List String
  mem_chain : ∀ t, t ∈ chain
  mem_fields : ∀ t, t ∈ fields
  apart : ∀ t t', t ≠ t' → ∀ p ∈ prefixes t, ∀ p' ∈ prefixes t', ¬ p.toList <+: p'.toList

namespace Resolver

variable {τ : Type} (r : Resolver τ)

/-- The branch of the chain that a symbol takes, if it takes one. -/
def targetOf (chain : List τ) (sym : Symbol) : Option τ :=
  if sym.kind ≠ .text then none
  else
    match sym.name with
    | none => none
    | some name =>
        if name.endsWith ".cold" then none
        else chain.find? fun t => (r.prefixes t).any fun p => name.startsWith p

/-- The message of `check_unique`. -/
def multipleMatches (conflict : Conflict τ UInt64) : String :=
  r.label conflict.slot ++ ": multiple non-cold matches (0x" ++ lowerHex conflict.held.toNat ++
    ", 0x" ++ lowerHex conflict.found.toNat ++
    ") — symbols artifact has drifted; rerun `xtask symbols` and audit"

/-- The loop over the symbols and the check that none is missing, with the branches in any
order. -/
def resolveIn [DecidableEq τ] (chain : List τ) (symbols : List Symbol) :
    Except String (τ → UInt64) :=
  match fill (r.targetOf chain) Symbol.address (fun _ => none) symbols with
  | .error conflict => .error (r.multipleMatches conflict)
  | .ok slots =>
      match r.fields.find? fun t => (slots t).isNone with
      | some t => .error (r.label t ++ " symbol not found")
      | none => .ok fun t => (slots t).getD 0

def Eligible (t : τ) (sym : Symbol) : Prop :=
  sym.kind = .text ∧ ∃ name, sym.name = some name ∧ ¬ name.endsWith ".cold" ∧
    ∃ p ∈ r.prefixes t, name.startsWith p

def addresses (t : τ) (symbols : List Symbol) : Set UInt64 :=
  {a | ∃ sym ∈ symbols, r.Eligible t sym ∧ sym.address = a}

/-! ## One target for a symbol -/

theorem eligible_unique {t t' : τ} {sym : Symbol} (eligible : r.Eligible t sym)
    (eligible' : r.Eligible t' sym) : t = t' := by
  rcases eligible with ⟨-, name, named, -, p, mem, starts⟩
  rcases eligible' with ⟨-, name', named', -, p', mem', starts'⟩
  have same : name = name' := Option.some.inj (named.symm.trans named')
  subst same
  rw [String.startsWith_string_iff] at starts starts'
  by_contra other
  rcases List.prefix_or_prefix_of_prefix starts starts' with inner | inner
  · exact r.apart t t' other p mem p' mem' inner
  · exact r.apart t' t (Ne.symm other) p' mem' p mem inner

theorem eligible_of_targetOf {chain : List τ} {t : τ} {sym : Symbol}
    (taken : r.targetOf chain sym = some t) : r.Eligible t sym := by
  unfold targetOf at taken
  split at taken
  next => cases taken
  next text =>
      split at taken
      next => cases taken
      next name named =>
          split at taken
          next => cases taken
          next warm =>
              have starts := List.find?_some taken
              rw [List.any_eq_true] at starts
              exact ⟨not_not.mp text, name, named, warm, starts⟩

/-- Whatever the order of the branches, a symbol takes that of its target. -/
theorem targetOf_eq_some_iff {chain : List τ} (complete : ∀ t, t ∈ chain) {t : τ} {sym : Symbol} :
    r.targetOf chain sym = some t ↔ r.Eligible t sym := by
  refine ⟨r.eligible_of_targetOf, fun eligible => ?_⟩
  cases taken : r.targetOf chain sym with
  | some t' => rw [r.eligible_unique (r.eligible_of_targetOf taken) eligible]
  | none =>
      rcases eligible with ⟨text, name, named, warm, starts⟩
      have branch : (r.prefixes t).any (fun p => name.startsWith p) = true := List.any_eq_true.mpr starts
      simp only [targetOf, text, named, warm, ne_eq, not_true_eq_false, if_false] at taken
      exact absurd branch (List.find?_eq_none.mp taken t (complete t))

/-! ## When a table is accepted -/

theorem addresses_perm {symbols symbols' : List Symbol} (perm : symbols.Perm symbols') (t : τ) :
    r.addresses t symbols = r.addresses t symbols' := by
  ext a
  simp only [addresses, Set.mem_ofPred_eq, perm.mem_iff]

section

variable [DecidableEq τ]

theorem resolveIn_eq_ok_iff {chain : List τ} (complete : ∀ t, t ∈ chain) {symbols : List Symbol}
    {offsets : τ → UInt64} :
    r.resolveIn chain symbols = .ok offsets ↔ ∀ t, r.addresses t symbols = {offsets t} := by
  have found : ∀ slots, fill (r.targetOf chain) Symbol.address (fun _ => none) symbols = .ok slots ↔
      ∀ t a, slots t = some a ↔ a ∈ r.addresses t symbols := by
    intro slots
    simp only [fill_empty_eq_ok_iff, r.targetOf_eq_some_iff complete, addresses, Set.mem_ofPred_eq]
  constructor
  · intro resolved t
    unfold resolveIn at resolved
    split at resolved
    next => cases resolved
    next slots filled =>
        split at resolved
        next => cases resolved
        next none =>
            cases resolved
            have present := List.find?_eq_none.mp none t (r.mem_fields t)
            rw [Option.isNone_iff_eq_none, ← ne_eq, Option.ne_none_iff_exists'] at present
            rcases present with ⟨a, held⟩
            show r.addresses t symbols = {(slots t).getD 0}
            ext b
            rw [← (found slots).mp filled t b, held, Option.getD_some, Set.mem_singleton_iff,
              Option.some.injEq, eq_comm]
  · intro single
    have filled : fill (r.targetOf chain) Symbol.address (fun _ => none) symbols =
        .ok fun t => some (offsets t) := by
      apply (found _).mpr
      intro t a
      rw [single t, Set.mem_singleton_iff, Option.some.injEq, eq_comm]
    have none : r.fields.find? (fun t => (some (offsets t)).isNone) = none :=
      List.find?_eq_none.mpr fun _ _ => Bool.false_ne_true
    unfold resolveIn
    rw [filled]
    dsimp only
    rw [none]
    rfl

theorem resolveIn_chain {chain : List τ} (perm : chain.Perm r.chain) (symbols : List Symbol) :
    r.resolveIn chain symbols = r.resolveIn r.chain symbols := by
  have complete : ∀ t, t ∈ chain := fun t => perm.mem_iff.mpr (r.mem_chain t)
  have same : r.targetOf chain = r.targetOf r.chain := by
    funext sym
    apply Option.ext
    intro t
    rw [r.targetOf_eq_some_iff complete, r.targetOf_eq_some_iff r.mem_chain]
  rw [resolveIn, resolveIn, same]

end

/-- A tool that resolves with `r` accepts a table when each target has one address in it,
and returns these addresses, whatever the order of the branches and of the table. -/
structure AcceptsUnambiguous [DecidableEq τ] {ω : Type} (build : (τ → UInt64) → ω)
    (field : ω → τ → UInt64) (resolve : List Symbol → Except String ω) : Prop where
  ok_iff : ∀ symbols offsets,
    resolve symbols = .ok offsets ↔ ∀ t, r.addresses t symbols = {field offsets t}
  accepts_iff : ∀ symbols,
    (∃ offsets, resolve symbols = .ok offsets) ↔ ∀ t, ∃ a, r.addresses t symbols = {a}
  one_target : ∀ sym t t', r.Eligible t sym → r.Eligible t' sym → t = t'
  any_chain : ∀ chain, chain.Perm r.chain → ∀ symbols,
    (r.resolveIn chain symbols).map build = resolve symbols
  any_order : ∀ symbols symbols', symbols.Perm symbols' → ∀ offsets,
    resolve symbols = .ok offsets ↔ resolve symbols' = .ok offsets

theorem acceptsUnambiguous [DecidableEq τ] {ω : Type} {build : (τ → UInt64) → ω}
    {field : ω → τ → UInt64} (field_build : ∀ f, field (build f) = f)
    (build_field : ∀ offsets, build (field offsets) = offsets) :
    r.AcceptsUnambiguous build field fun symbols => (r.resolveIn r.chain symbols).map build := by
  have ok_iff : ∀ symbols offsets, (r.resolveIn r.chain symbols).map build = .ok offsets ↔
      ∀ t, r.addresses t symbols = {field offsets t} := by
    intro symbols offsets
    rw [← r.resolveIn_eq_ok_iff r.mem_chain]
    cases r.resolveIn r.chain symbols with
    | error message => simp [Except.map]
    | ok f =>
        simp only [Except.map, Except.ok.injEq]
        constructor
        · intro same
          rw [← same, field_build]
        · intro same
          rw [same, build_field]
  refine ⟨ok_iff, fun symbols => ⟨fun accepted t => ?_, fun single => ?_⟩,
    fun _ _ _ => r.eligible_unique, fun chain perm symbols => ?_, fun symbols symbols' perm offsets => ?_⟩
  · rcases accepted with ⟨offsets, resolved⟩
    exact ⟨_, (ok_iff symbols offsets).mp resolved t⟩
  · choose f all using single
    exact ⟨build f, (ok_iff symbols _).mpr fun t => by rw [all t, field_build]⟩
  · rw [r.resolveIn_chain perm]
  · simp only [ok_iff, r.addresses_perm perm]

end Resolver

/-! ## The three tools -/

namespace Slowquery

inductive DsqlTarget where
  | prepare
  | execute
  | executeImmediate
  | openCursor
  | fetchNext
  deriving DecidableEq

structure DsqlOffsets where
  prepare : UInt64
  execute : UInt64
  executeImmediate : UInt64
  openCursor : UInt64
  fetchNext : UInt64
  deriving DecidableEq

def DsqlTarget.label : DsqlTarget → String
  | .prepare => "DSQL_prepare"
  | .execute => "DSQL_execute"
  | .executeImmediate => "DSQL_execute_immediate"
  | .openCursor => "Jrd::DsqlDmlRequest::openCursor"
  | .fetchNext => "Jrd::DsqlCursor::fetchNext"

def DsqlTarget.prefixes : DsqlTarget → List String
  | .prepare => ["_Z12DSQL_prepareP"]
  | .execute => ["_Z12DSQL_executeP"]
  | .executeImmediate => ["_Z22DSQL_execute_immediateP"]
  | .openCursor => ["_ZN3Jrd14DsqlDmlRequest10openCursorE"]
  | .fetchNext => ["_ZN3Jrd10DsqlCursor9fetchNextE"]

/-- The length of a name stands before it. -/
theorem DsqlTarget.apart (t t' : DsqlTarget) (other : t ≠ t') :
    ∀ p ∈ t.prefixes, ∀ p' ∈ t'.prefixes, ¬ p.toList <+: p'.toList := by
  cases t <;> cases t' <;> first | exact absurd rfl other | decide

theorem DsqlTarget.mem_all (t : DsqlTarget) :
    t ∈ [DsqlTarget.prepare, .executeImmediate, .execute, .openCursor, .fetchNext] := by
  cases t <;> decide

theorem DsqlTarget.mem_fields (t : DsqlTarget) :
    t ∈ [DsqlTarget.prepare, .execute, .executeImmediate, .openCursor, .fetchNext] := by
  cases t <;> decide

def dsqlResolver : Resolver DsqlTarget where
  chain := [.prepare, .executeImmediate, .execute, .openCursor, .fetchNext]
  fields := [.prepare, .execute, .executeImmediate, .openCursor, .fetchNext]
  label := DsqlTarget.label
  prefixes := DsqlTarget.prefixes
  mem_chain := DsqlTarget.mem_all
  mem_fields := DsqlTarget.mem_fields
  apart := DsqlTarget.apart

def DsqlOffsets.build (f : DsqlTarget → UInt64) : DsqlOffsets where
  prepare := f .prepare
  execute := f .execute
  executeImmediate := f .executeImmediate
  openCursor := f .openCursor
  fetchNext := f .fetchNext

def DsqlOffsets.field (o : DsqlOffsets) : DsqlTarget → UInt64
  | .prepare => o.prepare
  | .execute => o.execute
  | .executeImmediate => o.executeImmediate
  | .openCursor => o.openCursor
  | .fetchNext => o.fetchNext

/-- `resolve`, of the symbols of the file. -/
def resolve (symbols : List Symbol) : Except String DsqlOffsets :=
  (dsqlResolver.resolveIn dsqlResolver.chain symbols).map DsqlOffsets.build

end Slowquery

namespace Attach

inductive AttachTarget where
  | attachmentCtor
  | releaseAttachment
  deriving DecidableEq

structure AttachOffsets where
  attachmentCtor : UInt64
  releaseAttachment : UInt64
  deriving DecidableEq

def AttachTarget.label : AttachTarget → String
  | .attachmentCtor => "Jrd::Attachment::Attachment"
  | .releaseAttachment => "release_attachment"

def AttachTarget.prefixes : AttachTarget → List String
  | .attachmentCtor => ["_ZN3Jrd10AttachmentC1E", "_ZN3Jrd10AttachmentC2E"]
  | .releaseAttachment => ["_ZL18release_attachment"]

theorem AttachTarget.apart (t t' : AttachTarget) (other : t ≠ t') :
    ∀ p ∈ t.prefixes, ∀ p' ∈ t'.prefixes, ¬ p.toList <+: p'.toList := by
  cases t <;> cases t' <;> first | exact absurd rfl other | decide

theorem AttachTarget.mem_all (t : AttachTarget) :
    t ∈ [AttachTarget.attachmentCtor, .releaseAttachment] := by
  cases t <;> decide

def attachResolver : Resolver AttachTarget where
  chain := [.attachmentCtor, .releaseAttachment]
  fields := [.attachmentCtor, .releaseAttachment]
  label := AttachTarget.label
  prefixes := AttachTarget.prefixes
  mem_chain := AttachTarget.mem_all
  mem_fields := AttachTarget.mem_all
  apart := AttachTarget.apart

def AttachOffsets.build (f : AttachTarget → UInt64) : AttachOffsets where
  attachmentCtor := f .attachmentCtor
  releaseAttachment := f .releaseAttachment

def AttachOffsets.field (o : AttachOffsets) : AttachTarget → UInt64
  | .attachmentCtor => o.attachmentCtor
  | .releaseAttachment => o.releaseAttachment

/-- `resolve`, of the symbols of the file. -/
def resolve (symbols : List Symbol) : Except String AttachOffsets :=
  (attachResolver.resolveIn attachResolver.chain symbols).map AttachOffsets.build

end Attach

namespace Pageio

inductive PageIoTarget where
  | cchFetchPage
  deriving DecidableEq

structure PageIoOffsets where
  cchFetchPage : UInt64
  deriving DecidableEq

def PageIoTarget.label : PageIoTarget → String
  | .cchFetchPage => "CCH_fetch_page"

def PageIoTarget.prefixes : PageIoTarget → List String
  | .cchFetchPage => ["_Z14CCH_fetch_pagePN3Jrd9thread_dbE"]

theorem PageIoTarget.apart (t t' : PageIoTarget) (other : t ≠ t') :
    ∀ p ∈ t.prefixes, ∀ p' ∈ t'.prefixes, ¬ p.toList <+: p'.toList := by
  cases t
  cases t'
  exact absurd rfl other

theorem PageIoTarget.mem_all (t : PageIoTarget) : t ∈ [PageIoTarget.cchFetchPage] := by
  cases t
  exact List.mem_singleton_self _

def pageIoResolver : Resolver PageIoTarget where
  chain := [.cchFetchPage]
  fields := [.cchFetchPage]
  label := PageIoTarget.label
  prefixes := PageIoTarget.prefixes
  mem_chain := PageIoTarget.mem_all
  mem_fields := PageIoTarget.mem_all
  apart := PageIoTarget.apart

def PageIoOffsets.build (f : PageIoTarget → UInt64) : PageIoOffsets where
  cchFetchPage := f .cchFetchPage

def PageIoOffsets.field (o : PageIoOffsets) : PageIoTarget → UInt64
  | .cchFetchPage => o.cchFetchPage

/-- `resolve`, of the symbols of the file. -/
def resolve (symbols : List Symbol) : Except String PageIoOffsets :=
  (pageIoResolver.resolveIn pageIoResolver.chain symbols).map PageIoOffsets.build

end Pageio

/-- Each of the tools accepts the tables in which it finds one address for each of its
functions. -/
theorem resolvers_accept_unambiguous :
    Slowquery.dsqlResolver.AcceptsUnambiguous Slowquery.DsqlOffsets.build
        Slowquery.DsqlOffsets.field Slowquery.resolve ∧
      Attach.attachResolver.AcceptsUnambiguous Attach.AttachOffsets.build
        Attach.AttachOffsets.field Attach.resolve ∧
      Pageio.pageIoResolver.AcceptsUnambiguous Pageio.PageIoOffsets.build
        Pageio.PageIoOffsets.field Pageio.resolve := by
  refine ⟨Resolver.acceptsUnambiguous _ (fun f => ?_) fun _ => rfl,
    Resolver.acceptsUnambiguous _ (fun f => ?_) fun _ => rfl,
    Resolver.acceptsUnambiguous _ (fun f => ?_) fun _ => rfl⟩
  all_goals
    funext t
    cases t <;> rfl

/-- The constructor has two names at one address, and a clone in a cold section. -/
example :
    (Attach.resolve
        [⟨.text, some "_ZN3Jrd10AttachmentC2EPv", 16⟩, ⟨.text, none, 1⟩,
          ⟨.text, some "_ZN3Jrd10AttachmentC1EPv.cold", 32⟩, ⟨.notText, some "_ZL18release_attachment", 2⟩,
          ⟨.text, some "_ZL18release_attachmentPv", 48⟩, ⟨.text, some "_ZN3Jrd10AttachmentC1EPv", 16⟩]).toOption =
      some ⟨16, 48⟩ := by decide +kernel

end Tragach
