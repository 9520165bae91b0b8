import TriggerScript.Compile

/-!
# The stages of compiling

Compiling goes through scanning, parsing and assembling.  Its outcome is that
of the first stage that fails, and a program comes out only if none does.
-/

namespace TriggerScript

namespace Program

variable {catalog : Catalog} {source : String}

theorem compile_of_scan_error {error : Token.ScanError}
    (failed : Token.scan source = .error error) :
    compile catalog source = .error (.scan error) := by
  rw [compile, compileLogged, failed]

theorem compile_of_parse_error {tokens : List Token} {error : ParseError}
    (scanned : Token.scan source = .ok tokens)
    (failed : Node.parse tokens = .error error) :
    compile catalog source = .error (.parse error) := by
  rw [compile, compileLogged, scanned]
  dsimp only
  rw [failed]

theorem compile_of_parse {tokens : List Token} {nodes : List Node}
    (scanned : Token.scan source = .ok tokens)
    (parsed : Node.parse tokens = .ok nodes) :
    compile catalog source =
      (assemble catalog nodes).mapError .compile := by
  rw [compile, compileLogged, scanned]
  dsimp only
  rw [parsed]
  rfl

/-- A program comes out only of a script that was scanned, parsed and
assembled. -/
theorem compile_eq_ok {program : Program}
    (compiled : compile catalog source = .ok program) :
    ∃ tokens nodes, Token.scan source = .ok tokens ∧
      Node.parse tokens = .ok nodes ∧
      assemble catalog nodes = .ok program := by
  cases scanned : Token.scan source with
  | error error =>
      rw [compile_of_scan_error scanned] at compiled
      cases compiled
  | ok tokens =>
      cases parsed : Node.parse tokens with
      | error error =>
          rw [compile_of_parse_error scanned parsed] at compiled
          cases compiled
      | ok nodes =>
          rw [compile_of_parse scanned parsed] at compiled
          cases assembled : assemble catalog nodes with
          | error error =>
              rw [assembled] at compiled
              cases compiled
          | ok result =>
              rw [assembled] at compiled
              cases compiled
              exact ⟨tokens, nodes, rfl, parsed, assembled⟩

end Program

end TriggerScript
