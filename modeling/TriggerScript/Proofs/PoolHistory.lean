import TriggerScript.Proofs.ConstantTable

/-!
# Histories of a table of constants

A table of constants is asked again and again: for the place of a constant or
of a boolean, for the constant at a place, for its size and whether it is
empty.  Only the first two can change it, and they only add to its end.

* `Interner.history` lists the steps of such a run, each with the table before
  and after it.
* `Interner.history_invariant` takes what one step keeps to all steps of a run.
* `IndexedPool` is a table that does not search for a constant, but looks its
  place up in an index.  As long as the index is the inverse of the table
  (`IndexedPool.Inverse`), nobody can tell it from a table that searches.
-/

namespace TriggerScript

deriving instance Hashable for Constant

/-! ## Requests and steps -/

structure Interner (Pool : Type) where
  intern : Pool → Constant → Nat × Pool
  internBool : Pool → Bool → Nat × Pool
  get? : Pool → Nat → Option Constant
  size : Pool → Nat
  isEmpty : Pool → Bool

namespace Interner

inductive Request where
  | intern (constant : Constant)
  | internBool (value : Bool)
  | get (index : Nat)
  | size
  | isEmpty
  deriving DecidableEq, Repr

/-- The constant that a request interns; booleans are the integers one and
zero. -/
def Request.constant? : Request → Option Constant
  | intern constant => some constant
  | internBool true => some (.int 1)
  | internBool false => some (.int 0)
  | get _ => none
  | size => none
  | isEmpty => none

inductive Answer where
  | place (index : Nat)
  | entry (found : Option Constant)
  | size (count : Nat)
  | isEmpty (truth : Bool)
  deriving DecidableEq, Repr

/-- A request and its answer, with the table before and after it. -/
structure Step (Pool : Type) where
  before : Pool
  request : Request
  answer : Answer
  after : Pool
  deriving DecidableEq

/-- The same step, seen through a view of the table. -/
def Step.map {Pool View : Type} (view : Pool → View) (step : Step Pool) :
    Step View :=
  ⟨view step.before, step.request, step.answer, view step.after⟩

variable {Pool : Type}

def serve (interner : Interner Pool) (pool : Pool) :
    Request → Answer × Pool
  | .intern constant =>
      (.place (interner.intern pool constant).1,
        (interner.intern pool constant).2)
  | .internBool value =>
      (.place (interner.internBool pool value).1,
        (interner.internBool pool value).2)
  | .get index => (.entry (interner.get? pool index), pool)
  | .size => (.size (interner.size pool), pool)
  | .isEmpty => (.isEmpty (interner.isEmpty pool), pool)

def step (interner : Interner Pool) (pool : Pool) (request : Request) :
    Step Pool :=
  ⟨pool, request, (interner.serve pool request).1,
    (interner.serve pool request).2⟩

def history (interner : Interner Pool) (pool : Pool) :
    List Request → List (Step Pool)
  | [] => []
  | request :: requests =>
      interner.step pool request ::
        interner.history (interner.step pool request).after requests

/-- The constants that were interned in some steps. -/
def interned (steps : List (Step Pool)) : List Constant :=
  steps.filterMap fun step => step.request.constant?

variable {interner : Interner Pool}

theorem step_after_of_none {pool : Pool} {request : Request}
    (asksOnly : request.constant? = none) :
    (interner.step pool request).after = pool := by
  cases request with
  | intern constant =>
      cases asksOnly
  | internBool value =>
      cases value <;> cases asksOnly
  | get | size | isEmpty =>
      rfl

theorem map_request_history (pool : Pool) (requests : List Request) :
    (interner.history pool requests).map Step.request = requests := by
  induction requests generalizing pool with
  | nil =>
      rfl
  | cons request requests inductionHypothesis =>
      rw [history, List.map_cons, inductionHypothesis]
      rfl

/-- What every step keeps, about the steps so far and the table that they
left, holds before every step of a run. -/
theorem history_invariant (Holds : List (Step Pool) → Pool → Prop)
    (kept : ∀ past pool request, Holds past pool →
      Holds (past ++ [interner.step pool request])
        (interner.step pool request).after)
    {past rest : List (Step Pool)} {pool : Pool}
    {requests : List Request} {step : Step Pool}
    (start : Holds [] pool)
    (split : interner.history pool requests = past ++ step :: rest) :
    Holds past step.before ∧
      step = interner.step step.before step.request := by
  -- Behind the first step, the property is about the steps that follow it.
  induction past generalizing Holds pool requests with
  | nil =>
      cases requests with
      | nil =>
          cases split
      | cons request requests =>
          cases split
          exact ⟨start, rfl⟩
  | cons first past inductionHypothesis =>
      cases requests with
      | nil =>
          cases split
      | cons request requests =>
          injection split with firstEq restEq
          subst firstEq
          exact inductionHypothesis
            (fun later => Holds (interner.step pool request :: later))
            (fun later => kept (interner.step pool request :: later))
            (kept [] pool request start) restEq

end Interner

/-! ## The table that searches -/

namespace ConstantPool

open Interner

def interner : Interner ConstantPool :=
  ⟨intern, internBool, get?, size, isEmpty⟩

/-- What a step of a run tells, given the steps before it. -/
structure Coherent (past : List (Step ConstantPool))
    (step : Step ConstantPool) : Prop where
  /-- The table holds what was interned so far, each constant once, in the
  order of first interning. -/
  entries : step.after.entries = (interned (past ++ [step])).eraseDups
  /-- Interning answers with the one place where the constant stands. -/
  placed : ∀ constant, step.request.constant? = some constant →
    ∃ index, step.answer = .place index ∧
      ∀ other, step.after.get? other = some constant ↔ other = index
  /-- A place that an earlier step gave still has the constant of that
  step. -/
  recalled : ∀ earlier ∈ past, ∀ constant index,
    earlier.request.constant? = some constant →
      earlier.answer = .place index →
        step.request = .get index → step.answer = .entry (some constant)
  /-- Other requests leave the table as it is. -/
  unchanged : step.request.constant? = none → step.after = step.before

/-- What a pool knows about the steps that led to it. -/
structure Recalls (past : List (Step ConstantPool)) (pool : ConstantPool) :
    Prop where
  made : pool = internAll {} (interned past)
  told : ∀ earlier ∈ past, ∀ constant index,
    earlier.request.constant? = some constant →
      earlier.answer = .place index → pool.get? index = some constant

variable {pool : ConstantPool} {request : Request} {constant : Constant}

theorem step_of_some (interns : request.constant? = some constant) :
    interner.step pool request =
      ⟨pool, request, .place (pool.intern constant).1,
        (pool.intern constant).2⟩ := by
  cases request with
  | intern =>
      cases interns
      rfl
  | internBool value =>
      cases value <;> cases interns <;> rfl
  | get | size | isEmpty =>
      cases interns

theorem get?_intern (pool : ConstantPool) (constant : Constant) :
    (pool.intern constant).2.get? (pool.intern constant).1 =
      some constant := by
  obtain ⟨_, member, place⟩ := pool.intern_spec constant
  rw [place]
  exact List.getElem?_idxOf member

/-- Interning changes no place that has a constant. -/
theorem get?_intern_of_some {known : Constant} {index : Nat}
    (found : pool.get? index = some known) (constant : Constant) :
    (pool.intern constant).2.get? index = some known := by
  obtain ⟨more, appended⟩ := (pool.intern_spec constant).1
  have bound : index < pool.entries.length :=
    (List.getElem?_eq_some_iff.mp found).1
  rw [get?, ← appended, List.getElem?_append_left bound]
  exact found

/-- Without repetitions, a constant stands at no two places. -/
theorem get?_inj (distinct : pool.entries.Nodup) {index other : Nat}
    (found : pool.get? index = some constant)
    (again : pool.get? other = some constant) : other = index := by
  obtain ⟨bound, foundAt⟩ := List.getElem?_eq_some_iff.mp found
  obtain ⟨otherBound, againAt⟩ := List.getElem?_eq_some_iff.mp again
  exact distinct.getElem_inj_iff.mp (againAt.trans foundAt.symm)

theorem step_after (pool : ConstantPool) (request : Request) :
    (interner.step pool request).after =
      pool.internAll request.constant?.toList := by
  cases interns : request.constant? with
  | none =>
      exact step_after_of_none interns
  | some constant =>
      rw [step_of_some interns]
      rfl

/-- A request that interns is answered with a place of its constant. -/
theorem get?_of_step {index : Nat}
    (interns : request.constant? = some constant)
    (answered : (interner.step pool request).answer = .place index) :
    (interner.step pool request).after.get? index = some constant := by
  rw [step_of_some interns] at answered ⊢
  cases answered
  exact get?_intern pool constant

theorem interned_append_step (past : List (Step ConstantPool))
    (pool : ConstantPool) (request : Request) :
    interned (past ++ [interner.step pool request]) =
      interned past ++ request.constant?.toList := by
  rw [interned, List.filterMap_append]
  cases interns : request.constant? with
  | none | some =>
      simp [interned, Interner.step, interns]

namespace Recalls

variable {past : List (Step ConstantPool)}

theorem entries_eq (recalls : Recalls past pool) :
    pool.entries = (interned past).eraseDups := by
  rw [recalls.made, entries_internAll]

theorem distinct (recalls : Recalls past pool) : pool.entries.Nodup := by
  rw [recalls.made]
  exact nodup_internAll List.nodup_nil _

protected theorem nil : Recalls [] {} :=
  ⟨rfl, by simp⟩

protected theorem step (recalls : Recalls past pool) (request : Request) :
    Recalls (past ++ [interner.step pool request])
      (interner.step pool request).after := by
  constructor
  case made =>
    rw [step_after, interned_append_step, internAll_append, ← recalls.made]
  case told =>
    intro earlier member constant index interns answered
    rcases List.mem_append.mp member with before | last
    · have found :=
        recalls.told earlier before constant index interns answered
      rw [step_after]
      cases request.constant? with
      | none =>
          exact found
      | some other =>
          exact get?_intern_of_some found other
    · obtain rfl := List.mem_singleton.mp last
      exact get?_of_step interns answered

/-- A step from a pool that recalls its past is coherent with this past. -/
theorem coherent (recalls : Recalls past pool) (request : Request) :
    Coherent past (interner.step pool request) := by
  have after := recalls.step request
  constructor
  case entries =>
    exact after.entries_eq
  case placed =>
    intro constant (interns : request.constant? = some constant)
    have distinct := after.distinct
    rw [step_of_some interns] at distinct ⊢
    refine ⟨_, rfl, fun other => ⟨?_, ?_⟩⟩
    · exact get?_inj distinct (get?_intern pool constant)
    · rintro rfl
      exact get?_intern pool constant
  case recalled =>
    intro earlier member constant index interns answered asked
    cases asked
    exact congrArg Answer.entry
      (recalls.told earlier member constant index interns answered)
  case unchanged =>
    exact step_after_of_none

end Recalls

theorem coherent_of_history {requests : List Request}
    {past rest : List (Step ConstantPool)} {step : Step ConstantPool}
    (split : interner.history {} requests = past ++ step :: rest) :
    Coherent past step := by
  obtain ⟨recalls, isStep⟩ := history_invariant Recalls
    (fun _ _ request recalls => recalls.step request) .nil split
  rw [isStep]
  exact recalls.coherent step.request

end ConstantPool

/-! ## The table with an index -/

/-- A table of constants together with the place of each of them. -/
structure IndexedPool where
  entries : Array Constant := #[]
  places : Std.HashMap Constant Nat := {}

namespace IndexedPool

open Interner

/-- The place of a constant, which is added to table and index if it is
new. -/
def intern (pool : IndexedPool) (constant : Constant) :
    Nat × IndexedPool :=
  match pool.places[constant]? with
  | some index => (index, pool)
  | none =>
      (pool.entries.size,
        ⟨pool.entries.push constant,
          pool.places.insert constant pool.entries.size⟩)

def interner : Interner IndexedPool where
  intern := intern
  internBool pool value := pool.intern (.ofBool value)
  get? pool index := pool.entries[index]?
  size pool := pool.entries.size
  isEmpty pool := pool.entries.isEmpty

def toPool (pool : IndexedPool) : ConstantPool :=
  ⟨pool.entries.toList⟩

/-- The index is the inverse of the table. -/
def Inverse (pool : IndexedPool) : Prop :=
  ∀ (constant : Constant) (index : Nat),
    pool.places[constant]? = some index ↔
      pool.entries[index]? = some constant

variable {pool : IndexedPool} {constant : Constant}

namespace Inverse

protected theorem empty : Inverse {} := by
  intro constant index
  simp

theorem notMem (inverse : pool.Inverse)
    (new : pool.places[constant]? = none) : constant ∉ pool.entries := by
  intro member
  obtain ⟨index, found⟩ := Array.getElem?_of_mem member
  rw [(inverse constant index).mpr found] at new
  cases new

theorem push (inverse : pool.Inverse)
    (new : pool.places[constant]? = none) :
    Inverse ⟨pool.entries.push constant,
      pool.places.insert constant pool.entries.size⟩ := by
  intro other index
  rw [Std.HashMap.getElem?_insert, Array.getElem?_push]
  by_cases last : index = pool.entries.size
  · subst last
    by_cases same : constant = other
    · simp [same]
    · simp [same, inverse other]
  · by_cases same : constant = other
    · subst same
      have elsewhere : pool.entries[index]? ≠ some constant := by
        intro found
        exact inverse.notMem new (Array.mem_of_getElem? found)
      simp [last, elsewhere, Ne.symm last]
    · simp [same, last, inverse other]

theorem intern (inverse : pool.Inverse) (constant : Constant) :
    (pool.intern constant).2.Inverse := by
  rw [IndexedPool.intern]
  cases found : pool.places[constant]? with
  | some index =>
      exact inverse
  | none =>
      exact inverse.push found

/-- Looking a constant up gives what a search for it gives. -/
theorem idxOf?_entries (inverse : pool.Inverse) (constant : Constant) :
    pool.toPool.entries.idxOf? constant = pool.places[constant]? := by
  cases found : pool.places[constant]? with
  | none =>
      rw [List.idxOf?_eq_none_iff, toPool, Array.mem_toList_iff]
      exact inverse.notMem found
  | some index =>
      have entry := (inverse constant index).mp found
      have member : constant ∈ pool.toPool.entries :=
        Array.mem_toList_iff.mpr (Array.mem_of_getElem? entry)
      obtain ⟨first, searched⟩ :=
        Option.isSome_iff_exists.mp (List.isSome_idxOf?.mpr member)
      have firstEq : pool.toPool.entries.idxOf constant = first := by
        rw [List.idxOf_eq_getD_idxOf?, searched, Option.getD_some]
      have firstAt : pool.entries[first]? = some constant := by
        rw [← firstEq, ← Array.getElem?_toList]
        exact List.getElem?_idxOf member
      rw [searched, ← found]
      exact ((inverse constant first).mpr firstAt).symm

theorem toPool_intern (inverse : pool.Inverse) (constant : Constant) :
    pool.toPool.intern constant =
      ((pool.intern constant).1, (pool.intern constant).2.toPool) := by
  rw [ConstantPool.intern, inverse.idxOf?_entries, IndexedPool.intern]
  cases pool.places[constant]? with
  | some index =>
      rfl
  | none =>
      simp [toPool, ConstantPool.size]

theorem step (inverse : pool.Inverse) (request : Request) :
    (interner.step pool request).after.Inverse := by
  cases request with
  | intern constant =>
      exact inverse.intern constant
  | internBool value =>
      exact inverse.intern (.ofBool value)
  | get | size | isEmpty =>
      exact inverse

/-- Without its index, an indexed pool takes the steps of a pool. -/
theorem map_step (inverse : pool.Inverse) (request : Request) :
    (interner.step pool request).map toPool =
      ConstantPool.interner.step pool.toPool request := by
  cases request with
  | intern constant =>
      simp [Step.map, Interner.step, serve, ConstantPool.interner, interner,
        inverse.toPool_intern]
  | internBool value =>
      simp [Step.map, Interner.step, serve, ConstantPool.interner, interner,
        inverse.toPool_intern, ConstantPool.internBool]
  | get index =>
      simp [Step.map, Interner.step, serve, ConstantPool.interner, interner,
        ConstantPool.get?, toPool]
  | size =>
      simp [Step.map, Interner.step, serve, ConstantPool.interner, interner,
        ConstantPool.size, toPool]
  | isEmpty =>
      simp [Step.map, Interner.step, serve, ConstantPool.interner, interner,
        ConstantPool.isEmpty, toPool]

theorem map_history (inverse : pool.Inverse) (requests : List Request) :
    (interner.history pool requests).map (Step.map toPool) =
      ConstantPool.interner.history pool.toPool requests := by
  induction requests generalizing pool with
  | nil =>
      rfl
  | cons request requests inductionHypothesis =>
      rw [history, List.map_cons, inductionHypothesis (inverse.step request),
        history, ← inverse.map_step]
      rfl

end Inverse

/-- In a run from an empty table, the index is the inverse of the table after
every step, and requests that intern nothing leave both as they are. -/
theorem inverse_of_history {requests : List Request}
    {step : Step IndexedPool}
    (member : step ∈ interner.history {} requests) :
    step.after.Inverse ∧
      (step.request.constant? = none → step.after = step.before) := by
  obtain ⟨past, rest, split⟩ := List.append_of_mem member
  obtain ⟨inverse, isStep⟩ := history_invariant (fun _ pool => pool.Inverse)
    (fun _ _ request inverse => inverse.step request) .empty split
  rw [isStep]
  exact ⟨inverse.step step.request, step_after_of_none⟩

end IndexedPool

namespace ConstantPool

open Interner

/-- However a new table of constants is asked, each step is coherent with the
steps before it.  A table that looks places up in an index answers the same,
because its index is always the inverse of the table. -/
theorem history_coherent (requests : List Request) :
    (interner.history {} requests).map Step.request = requests ∧
      (∀ past step rest,
        interner.history {} requests = past ++ step :: rest →
          Coherent past step) ∧
      (IndexedPool.interner.history {} requests).map
          (Step.map IndexedPool.toPool) = interner.history {} requests ∧
      ∀ step ∈ IndexedPool.interner.history {} requests,
        step.after.Inverse ∧
          (step.request.constant? = none → step.after = step.before) := by
  refine ⟨map_request_history _ _, ?_, ?_, ?_⟩
  · intro past step rest split
    exact coherent_of_history split
  · exact IndexedPool.Inverse.empty.map_history requests
  · intro step member
    exact IndexedPool.inverse_of_history member

/-- Booleans and integers that share their places, and a `long` that does
not. -/
def aliasRequests : List Request :=
  [.intern (.int 1), .internBool true, .intern (.long 1), .size,
    .internBool false, .get 0, .intern (.int 0), .get 3]

theorem history_coherent_aliases :
    (interner.history {} aliasRequests).map Step.answer =
        [.place 0, .place 0, .place 1, .size 2, .place 2,
          .entry (some (.int 1)), .place 2, .entry none] ∧
      (∃ past rest,
        interner.history {} aliasRequests = past ++
            interner.step ⟨[.int 1, .long 1, .int 0]⟩ (.get 0) :: rest ∧
          Coherent past
            (interner.step ⟨[.int 1, .long 1, .int 0]⟩ (.get 0))) ∧
      (IndexedPool.interner.step {} (.intern (.int 1))).after.Inverse := by
  obtain ⟨_, coherent, _, inverse⟩ := history_coherent aliasRequests
  have split : interner.history {} aliasRequests =
      (interner.history {} aliasRequests).take 5 ++
        interner.step ⟨[.int 1, .long 1, .int 0]⟩ (.get 0) ::
          (interner.history {} aliasRequests).drop 6 := by
    decide
  exact ⟨by decide, ⟨_, _, split, coherent _ _ _ split⟩,
    (inverse _ List.mem_cons_self).1⟩

end ConstantPool

end TriggerScript
