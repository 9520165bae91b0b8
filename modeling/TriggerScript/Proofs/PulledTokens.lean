import Mathlib
import TriggerScript.Proofs.ScanErrors

/-!
# Pulling tokens

A scanner can be asked for its next result or for all that are left, in any
order and any number of times.  The answers come from one list, which the
source text alone decides: the tokens in their order, and at its end the end
marker or the first error.

* `Scanner.results` is this list for a scanner in any state.
* `Scanner.ask_eq_serve` says that one request is answered from the front of
  the list, and that the list of the scanner left over is what remains.
-/

namespace TriggerScript.Scanner

open Token

/-! ## Requests and answers -/

inductive Request where
  | next
  | tokenize
  deriving DecidableEq, Repr

inductive Answer where
  | next (result : Option (Except ScanError Token))
  | tokenize (result : Except ScanError (List Token))

/-- The answer to a request when there is nothing left. -/
def Request.blank : Request → Answer
  | next => .next none
  | tokenize => .tokenize (.ok [])

def ask (scanner : Scanner) : Request → Answer × Scanner
  | .next => (.next scanner.next.1, scanner.next.2)
  | .tokenize => (.tokenize scanner.tokenize.1, scanner.tokenize.2)

def askAll (scanner : Scanner) : List Request → List Answer
  | [] => []
  | request :: requests =>
      (scanner.ask request).1 ::
        (scanner.ask request).2.askAll requests

/-! ## Serving from a list -/

/-- The error that some results end in, and otherwise their tokens. -/
def gather (results : List (Except ScanError Token)) :
    Except ScanError (List Token) :=
  match results.getLast? with
  | some (.error error) => .error error
  | _ => .ok (results.filterMap Except.toOption)

/-- Serve a request from a list of results, and tell what remains. -/
def serve (results : List (Except ScanError Token)) :
    Request → Answer × List (Except ScanError Token)
  | .next => (.next results.head?, results.tail)
  | .tokenize => (.tokenize (gather results), [])

/-- Serve requests one after another. -/
def serveAll (results : List (Except ScanError Token)) :
    List Request → List Answer
  | [] => []
  | request :: requests =>
      (serve results request).1 ::
        serveAll (serve results request).2 requests

/-- What remains of a list of results behind some requests. -/
def remaining (results : List (Except ScanError Token))
    (requests : List Request) : List (Except ScanError Token) :=
  requests.foldl (fun left request => (serve left request).2) results

/-- Tokens that are no end markers, and then the end marker or an error. -/
def Complete (results : List (Except ScanError Token)) : Prop :=
  ∃ (tokens : List Token) (last : Except ScanError Token),
    results = tokens.map .ok ++ [last] ∧
    (∀ token ∈ tokens, token.kind ≠ .eof) ∧
    ((∃ token, last = .ok token ∧ token.kind = .eof) ∨
      ∃ error, last = .error error)

section Serving

variable {results : List (Except ScanError Token)}

theorem gather_cons (token : Token) :
    gather (.ok token :: results) =
      (gather results).map (List.cons token) := by
  unfold gather
  rw [List.getLast?_cons]
  cases results.getLast? with
  | none =>
      rfl
  | some result =>
      cases result with
      | error error =>
          rfl
      | ok token =>
          rfl

theorem serveAll_append (earlier later : List Request) :
    serveAll results (earlier ++ later) =
      serveAll results earlier ++
        serveAll (remaining results earlier) later := by
  induction earlier generalizing results with
  | nil =>
      rfl
  | cons request earlier inductionHypothesis =>
      rw [List.cons_append, serveAll, serveAll, inductionHypothesis,
        List.cons_append]
      rfl

/-- A list that is used up stays so, whatever is asked for. -/
theorem serveAll_nil (requests : List Request) :
    serveAll [] requests = requests.map Request.blank := by
  induction requests with
  | nil =>
      rfl
  | cons request requests inductionHypothesis =>
      rw [serveAll, List.map_cons]
      cases request with
      | next | tokenize =>
          exact congrArg (List.cons _) inductionHypothesis

theorem Complete.cons {token : Token} (complete : Complete results)
    (goesOn : token.kind ≠ .eof) : Complete (.ok token :: results) := by
  obtain ⟨tokens, last, rfl, noMarker, ending⟩ := complete
  exact ⟨token :: tokens, last, rfl,
    List.forall_mem_cons.mpr ⟨goesOn, noMarker⟩, ending⟩

end Serving

/-! ## The results of a scanner -/

def results (scanner : Scanner) : List (Except ScanError Token) :=
  match step : scanner.next with
  | (none, _) => []
  | (some result, after) =>
      have := pending_next_lt step
      result :: after.results
termination_by scanner.pending

variable {scanner after : Scanner}

theorem next_of_finished (finished : scanner.finished = true) :
    scanner.next = (none, scanner) := by
  rw [next, if_pos finished]

/-- A scanner that gives nothing has finished and stays as it is. -/
theorem eq_of_next (step : scanner.next = (none, after)) :
    scanner.finished = true ∧ after = scanner := by
  have finished := finished_of_next step
  rw [next_of_finished finished] at step
  cases step
  exact ⟨finished, rfl⟩

theorem results_of_finished (finished : scanner.finished = true) :
    scanner.results = [] := by
  rw [results]
  split
  · rfl
  · rename_i other
    rw [next_of_finished finished] at other
    cases other

theorem results_of_next {result : Except ScanError Token}
    (step : scanner.next = (some result, after)) :
    scanner.results = result :: after.results := by
  rw [results]
  split
  · rename_i other
    rw [step] at other
    cases other
  · rename_i other
    rw [step] at other
    cases other
    rfl

/-- A running scanner goes on behind a token, and stops behind the end marker
or an error. -/
theorem next_outcome {result : Except ScanError Token}
    (step : scanner.next = (some result, after)) :
    (∃ token, result = .ok token ∧ token.kind ≠ .eof ∧
        after.finished = false) ∨
      after.finished = true ∧
        ((∃ token, result = .ok token ∧ token.kind = .eof) ∨
          ∃ error, result = .error error) := by
  have running := running_of_next step
  rw [next_eq running] at step
  generalize front :
    scanner.advance (layoutLength scanner.rest) = place at step
  have placeRunning : place.finished = false := by
    rw [← front]
    exact running
  cases restEq : place.rest with
  | nil =>
      rw [take_of_nil restEq] at step
      cases step
      exact .inr ⟨rfl, .inl ⟨_, rfl, rfl⟩⟩
  | cons first tail =>
      cases found : lexeme? place.rest with
      | none =>
          rw [take_of_none restEq found] at step
          cases step
          exact .inr ⟨rfl, .inr ⟨_, rfl⟩⟩
      | some pair =>
          obtain ⟨kind, length⟩ := pair
          rw [take_of_lexeme? found] at step
          cases step
          exact .inl ⟨_, rfl, (matches_of_lexeme? found).ne_eof,
            placeRunning⟩

/-- Every result leaves fewer steps, so there are not too many of them. -/
theorem length_results_le (scanner : Scanner) :
    scanner.results.length ≤ scanner.pending := by
  cases step : scanner.next with
  | mk result after =>
      cases result with
      | none =>
          rw [results_of_finished (finished_of_next step)]
          exact Nat.zero_le _
      | some result =>
          have fewer := pending_next_lt step
          have bound := length_results_le after
          rw [results_of_next step, List.length_cons]
          omega
termination_by scanner.pending

theorem complete_results (scanner : Scanner)
    (running : scanner.finished = false) : Complete scanner.results := by
  cases step : scanner.next with
  | mk result after =>
      cases result with
      | none =>
          rw [finished_of_next step] at running
          cases running
      | some result =>
          have := pending_next_lt step
          rw [results_of_next step]
          rcases next_outcome step with
            ⟨token, rfl, goesOn, afterRunning⟩ | ⟨finished, ending⟩
          · exact (complete_results after afterRunning).cons goesOn
          · rw [results_of_finished finished]
            exact ⟨[], result, rfl, by simp, ending⟩
termination_by scanner.pending

/-! ## Answers come from the results -/

theorem next_eq_results (scanner : Scanner) :
    scanner.next.1 = scanner.results.head? ∧
      scanner.next.2.results = scanner.results.tail := by
  cases step : scanner.next with
  | mk result after =>
      cases result with
      | none =>
          obtain ⟨finished, rfl⟩ := eq_of_next step
          rw [results_of_finished finished]
          exact ⟨rfl, rfl⟩
      | some result =>
          rw [results_of_next step]
          exact ⟨rfl, rfl⟩

theorem tokenize_eq_gather (scanner : Scanner) :
    scanner.tokenize.1 = gather scanner.results := by
  cases step : scanner.next with
  | mk result after =>
      rcases result with _ | error | token
      · have finished := finished_of_next step
        rw [tokenize_of_finished finished, results_of_finished finished]
        rfl
      · rw [tokenize_of_error step, results_of_next step]
        rcases next_outcome step with
          ⟨_, impossible, _⟩ | ⟨finished, _⟩
        · cases impossible
        · rw [results_of_finished finished]
          rfl
      · have := pending_next_lt step
        rw [tokenize_of_next step, results_of_next step, gather_cons,
          tokenize_eq_gather after]
termination_by scanner.pending

/-- Scanning all that is left leaves nothing. -/
theorem finished_tokenize (scanner : Scanner) :
    scanner.tokenize.2.finished = true := by
  rw [tokenize]
  split
  · rename_i after step
    obtain ⟨finished, rfl⟩ := eq_of_next step
    exact finished
  · rename_i step
    rcases next_outcome step with ⟨_, impossible, _⟩ | ⟨finished, _⟩
    · cases impossible
    · exact finished
  · rename_i token after step
    have := pending_next_lt step
    have last := finished_tokenize after
    split
    · rename_i run
      rw [run] at last
      exact last
    · rename_i run
      rw [run] at last
      exact last
termination_by scanner.pending

theorem ask_eq_serve (scanner : Scanner) (request : Request) :
    (scanner.ask request).1 = (serve scanner.results request).1 ∧
      (scanner.ask request).2.results =
        (serve scanner.results request).2 := by
  cases request with
  | next =>
      obtain ⟨pulled, left⟩ := next_eq_results scanner
      exact ⟨congrArg Answer.next pulled, left⟩
  | tokenize =>
      exact ⟨congrArg Answer.tokenize (tokenize_eq_gather scanner),
        results_of_finished (finished_tokenize scanner)⟩

theorem askAll_eq_serveAll (scanner : Scanner) (requests : List Request) :
    scanner.askAll requests = serveAll scanner.results requests := by
  induction requests generalizing scanner with
  | nil =>
      rfl
  | cons request requests inductionHypothesis =>
      obtain ⟨answer, left⟩ := scanner.ask_eq_serve request
      rw [askAll, serveAll, answer, inductionHypothesis, left]

/-- However a scanner is asked, its answers are those of one list of results
that the source decides.  The list has at most one result more than the source
has characters, and once it is used up all answers are blank. -/
theorem askAll_ofSource (source : String) :
    ∃ results, Complete results ∧ results.length ≤ source.length + 1 ∧
      (∀ requests,
        (ofSource source).askAll requests = serveAll results requests) ∧
      ∀ earlier later, remaining results earlier = [] →
        (ofSource source).askAll (earlier ++ later) =
          (ofSource source).askAll earlier ++ later.map Request.blank := by
  refine ⟨(ofSource source).results, complete_results _ rfl, ?_,
    askAll_eq_serveAll _, ?_⟩
  · have bound := length_results_le (ofSource source)
    have pendingEq : (ofSource source).pending = source.length + 1 := by
      rw [← String.length_toList]
      rfl
    rwa [pendingEq] at bound
  · intro earlier later usedUp
    rw [askAll_eq_serveAll, askAll_eq_serveAll, serveAll_append, usedUp,
      serveAll_nil]

/-- The name is given first, then the error of the stray character, and nothing
behind it. -/
theorem askAll_ofSource_stray :
    (ofSource "a # b").askAll [.next, .tokenize, .next, .tokenize] =
      [.next (some (.ok ⟨.identifier, "a", ⟨0, 1⟩⟩)),
        .tokenize (.error ⟨'#', 2, "# b"⟩), .next none,
        .tokenize (.ok [])] := by
  have answers : (ofSource "a # b").askAll [.next, .tokenize] =
      [.next (some (.ok ⟨.identifier, "a", ⟨0, 1⟩⟩)),
        .tokenize (.error ⟨'#', 2, "# b"⟩)] := by
    cbv
  obtain ⟨_, _, _, _, blank⟩ := askAll_ofSource "a # b"
  have behind := blank [.next, .tokenize] [.next, .tokenize] rfl
  rw [answers] at behind
  exact behind

end TriggerScript.Scanner
