import TriggerScript.Proofs.CatalogComposition
import TriggerScript.Proofs.FileHosts
import TriggerScript.Proofs.MachineWords
import TriggerScript.Proofs.Stages
import TriggerScript.Proofs.TriggerIsolation

/-!
# The command line and compiling

A run of the command line goes through the stages of compiling by itself, and
it loads the catalog between parsing and assembling.  Still it succeeds just
when compiling does, unless a file stands in the way, and what it delivers is
the compiled program.  The only file it writes is written last.  So a run that
fails leaves every file as it was, unless writing to the output file breaks off
once that file is open; then all other files are as they were.

This holds on every host that obeys the laws of reading, printing and writing.
-/

namespace TriggerScript.Command

variable {State File : Type}

/-! ## Steps of a run -/

def perform {α : Type} (state : State)
    (work : ExceptT Failure (StateM State) α) : Except Failure α × State :=
  work.run.run state

theorem perform_lift_bind {state after : State} {α β : Type}
    {work : StateM State α} {value : α}
    {next : α → ExceptT Failure (StateM State) β}
    (step : work.run state = (value, after)) :
    perform state (liftM work >>= next) = perform after (next value) := by
  have lifted :
      (liftM work : ExceptT Failure (StateM State) α).run.run state =
        (.ok value, after) := by
    have stepped : work state = (value, after) := step
    change (Except.ok (work state).1, (work state).2) = _
    rw [stepped]
  rw [perform, ExceptT.run_bind, StateT.run_bind, lifted]
  rfl

namespace Host

variable (host : Host (StateM State) File) (state : State)

def textOf (path : String) : Except FileFault String :=
  ((host.readText path).run state).1

def catalogOf (path? : Option String) : Except Catalog.LoadError Catalog :=
  ((host.loadCatalog path?).run state).1

def say (text : String) : State :=
  ((host.print text).run state).2

/-- The state in which a program is shown, if its listing is asked for. -/
def showing (options : Options) (program : Program) : State :=
  if options.has .listing then host.say state program.listing else state

variable {host state} {view : View State File} {after opened : State}
  {path : String} {options : Options} {program : Program}

theorem print_run (text : String) :
    (host.print text).run state = ((), host.say state text) :=
  rfl

theorem perform_shown {α : Type}
    {next : PUnit → ExceptT Failure (StateM State) α} :
    perform state
        (if options.has .listing then
          liftM (host.print program.listing) >>= next
        else
          next ()) =
      perform (host.showing state options program) (next ()) := by
  unfold showing
  split
  · exact perform_lift_bind (print_run _)
  · rfl

theorem write_run_of_ok {file : File} {bytes : List UInt8}
    (created : (host.create path).run state = (.ok file, opened)) :
    (host.write path bytes).run state = (host.store file bytes).run opened := by
  rw [write, StateT.run_bind, created]
  rfl

theorem write_run_of_error {fault : FileFault} {bytes : List UInt8}
    (failed : (host.create path).run state = (.error fault, after)) :
    (host.write path bytes).run state = (.error fault, after) := by
  rw [write, StateT.run_bind, failed]
  rfl

namespace Lawful

variable (lawful : host.Lawful view)

include lawful

theorem readText_run :
    (host.readText path).run state = (host.textOf state path, state) := by
  have same := lawful.read_state state path
  exact Prod.ext rfl same

theorem loadCatalog_run {path? : Option String} :
    (host.loadCatalog path?).run state =
      (host.catalogOf state path?, state) := by
  cases path? with
  | none => rfl
  | some path => exact Prod.ext rfl (lawful.read_state state path)

theorem contents_showing :
    view.contents (host.showing state options program) =
      view.contents state := by
  unfold showing
  split
  · exact lawful.print_contents state _
  · rfl

theorem printed_showing :
    view.printed (host.showing state options program) =
      view.printed state ++
        if options.has .listing then program.listing else "" := by
  unfold showing
  split
  · exact lawful.print_printed state _
  · rw [String.append_empty]

end Lawful

/-! ## Deliveries -/

/-- How the delivery of a program ends. -/
inductive Delivers (host : Host (StateM State) File) (state : State)
    (options : Options) (program : Program) :
    Except Failure Unit → State → Prop where
  | shown (unasked : options.output? = none) :
      Delivers host state options program (.ok ())
        (host.showing state options program)
  | written {path : String} {file : File} {opened after : State}
      (asked : options.output? = some path)
      (created : (host.create path).run
        (host.showing state options program) = (.ok file, opened))
      (stored : (host.store file program.toImage).run opened =
        (.ok (), after)) :
      Delivers host state options program (.ok ()) after
  | refused {path : String} {fault : FileFault} {after : State}
      (asked : options.output? = some path)
      (failed : (host.create path).run
        (host.showing state options program) = (.error fault, after)) :
      Delivers host state options program
        (.error ⟨"failed to write '" ++ path ++ "'", some fault.reason⟩) after
  | brokenOff {path : String} {file : File} {fault : FileFault}
      {opened after : State} (asked : options.output? = some path)
      (created : (host.create path).run
        (host.showing state options program) = (.ok file, opened))
      (failed : (host.store file program.toImage).run opened =
        (.error fault, after)) :
      Delivers host state options program
        (.error ⟨"failed to write '" ++ path ++ "'", some fault.reason⟩) after

theorem delivers (host : Host (StateM State) File) (state : State)
    (options : Options) (program : Program) :
    host.Delivers state options program
      (perform state (host.deliver options program)).1
      (perform state (host.deliver options program)).2 := by
  unfold deliver
  dsimp only
  rw [perform_shown]
  cases asked : options.output? with
  | none => exact .shown asked
  | some path =>
      dsimp only
      generalize created : (host.create path).run
        (host.showing state options program) = outcome
      obtain ⟨fault | file, opened⟩ := outcome
      · rw [perform_lift_bind (write_run_of_error created)]
        exact .refused asked created
      · generalize stored : (host.store file program.toImage).run opened =
          outcome
        have written := (write_run_of_ok created).trans stored
        obtain ⟨fault | ⟨⟩, after⟩ := outcome
        · rw [perform_lift_bind written]
          exact .brokenOff asked created stored
        · rw [perform_lift_bind written]
          exact .written asked created stored

/-! ## Compilations -/

/-- How a compilation ends, by what was read of its source. -/
inductive Ends (host : Host (StateM State) File) (state : State)
    (path : String) (options : Options) :
    Except FileFault String → Except Failure Unit → State → Prop where
  | unread {fault : FileFault} :
      Ends host state path options (.error fault)
        (.error ⟨"failed to read '" ++ path ++ "'", some fault.reason⟩) state
  | unscanned {source : String} {error : Token.ScanError}
      (failed : Token.scan source = .error error) :
      Ends host state path options (.ok source)
        (.error ⟨"lexer error", some error.message⟩) state
  | tokens {source : String} {tokens : List Token}
      (scanned : Token.scan source = .ok tokens)
      (asked : options.has .tokens = true) :
      Ends host state path options (.ok source) (.ok ())
        (host.say state (Token.listing (!options.has .noColor) tokens))
  | unparsed {source : String} {tokens : List Token} {error : ParseError}
      (scanned : Token.scan source = .ok tokens)
      (failed : Node.parse tokens = .error error) :
      Ends host state path options (.ok source)
        (.error ⟨"parse error", some error.message⟩) state
  | tree {source : String} {tokens : List Token} {nodes : List Node}
      (scanned : Token.scan source = .ok tokens)
      (parsed : Node.parse tokens = .ok nodes)
      (asked : options.has .tree = true) :
      Ends host state path options (.ok source) (.ok ())
        (host.say state (Node.renderOutline nodes ++ "\n"))
  | uncataloged {source : String} {tokens : List Token} {nodes : List Node}
      {error : Catalog.LoadError}
      (scanned : Token.scan source = .ok tokens)
      (parsed : Node.parse tokens = .ok nodes)
      (failed : host.catalogOf state options.catalog? = .error error) :
      Ends host state path options (.ok source)
        (.error (.ofLoadError error)) state
  | unassembled {source : String} {catalog : Catalog} {error : CompileError}
      (loaded : host.catalogOf state options.catalog? = .ok catalog)
      (compiled : Program.compile catalog source =
        .error (.compile error)) :
      Ends host state path options (.ok source)
        (.error ⟨error.message, none⟩) state
  | delivered {source : String} {catalog : Catalog} {program : Program}
      {result : Except Failure Unit} {after : State}
      (loaded : host.catalogOf state options.catalog? = .ok catalog)
      (compiled : Program.compile catalog source = .ok program)
      (noTokens : options.has .tokens = false)
      (noTree : options.has .tree = false)
      (delivers : host.Delivers state options program result after) :
      Ends host state path options (.ok source) result after

theorem Lawful.ends (lawful : host.Lawful view) (state : State)
    (path : String) (options : Options) :
    host.Ends state path options (host.textOf state path)
      (perform state (host.compile path options)).1
      (perform state (host.compile path options)).2 := by
  unfold compile
  rw [perform_lift_bind lawful.readText_run]
  cases host.textOf state path with
  | error fault => exact .unread
  | ok source =>
      dsimp only
      cases scanned : Token.scan source with
      | error error => exact .unscanned scanned
      | ok tokens =>
          dsimp only
          by_cases wantsTokens : options.has .tokens = true
          · rw [if_pos wantsTokens]
            exact .tokens scanned wantsTokens
          rw [if_neg wantsTokens]
          cases parsed : Node.parse tokens with
          | error error => exact .unparsed scanned parsed
          | ok nodes =>
              dsimp only
              by_cases wantsTree : options.has .tree = true
              · rw [if_pos wantsTree]
                exact .tree scanned parsed wantsTree
              rw [if_neg wantsTree, perform_lift_bind lawful.loadCatalog_run]
              cases loaded : host.catalogOf state options.catalog? with
              | error error => exact .uncataloged scanned parsed loaded
              | ok catalog =>
                  dsimp only
                  -- The first stages did not need the catalog.
                  have stages : Program.compile catalog source = _ :=
                    Program.compile_of_parse scanned parsed
                  cases assembled : Program.assemble catalog nodes with
                  | error error =>
                      rw [assembled] at stages
                      exact .unassembled loaded stages
                  | ok program =>
                      rw [assembled] at stages
                      exact .delivered loaded stages
                        (Bool.not_eq_true _ ▸ wantsTokens)
                        (Bool.not_eq_true _ ▸ wantsTree)
                        (host.delivers state options program)

/-! ## Files -/

/-- A program that compiling comes to with the catalog that is asked for. -/
def Compiles (host : Host (StateM State) File) (state : State)
    (options : Options) (source : String) (program : Program) : Prop :=
  ∃ catalog, host.catalogOf state options.catalog? = .ok catalog ∧
    Program.compile catalog source = .ok program

/-- The output file is opened once the program is shown, and the other files
stay as they are. -/
structure WritesOnly (host : Host (StateM State) File)
    (view : View State File) (state : State) (options : Options)
    (program : Program) (file : File) (opened after : State) : Prop where
  created : ∃ path, options.output? = some path ∧
    (host.create path).run (host.showing state options program) =
      (.ok file, opened)
  others : ∀ other, other ≠ file →
    view.contents after other = view.contents state other

variable {result : Except Failure Unit} {failure : Failure}
  {read : Except FileFault String} {source : String}

theorem Lawful.writesOnly (lawful : host.Lawful view) {file : File}
    {stored : Except FileFault Unit} (asked : options.output? = some path)
    (created : (host.create path).run
      (host.showing state options program) = (.ok file, opened))
    (ran : (host.store file program.toImage).run opened = (stored, after)) :
    host.WritesOnly view state options program file opened after where
  created := ⟨path, asked, created⟩
  others other different := by
    have kept := lawful.store_others opened program.toImage different
    rw [ran] at kept
    rw [kept, (lawful.create_ok created).2 other different,
      lawful.contents_showing]

end Host

/-! ## Runs -/

def Status.of : Except Failure Unit → Status
  | .ok _ => {}
  | .error failure => { code := 1, complaint := failure.message }

namespace Host

/-- A run that delivered a program. -/
structure Delivered (host : Host (StateM State) File)
    (view : View State File) (state : State) (options : Options)
    (program : Program) (status : Status) (after : State) : Prop where
  quiet : status.complaint = ""
  printed : view.printed after = view.printed state ++
    if options.has .listing then program.listing else ""
  kept : options.output? = none → view.contents after = view.contents state
  written : options.output?.isSome → ∃ file opened,
    host.WritesOnly view state options program file opened after ∧
      view.contents after file = some program.toImage

variable {host : Host (StateM State) File} {view : View State File}
  {state after : State} {options : Options} {path source : String}
  {program : Program} {result : Except Failure Unit}
  {arguments : List String}

theorem Compiles.unique {other : Program}
    (compiles : host.Compiles state options source program)
    (compilesOther : host.Compiles state options source other) :
    program = other := by
  obtain ⟨catalog, loaded, compiled⟩ := compiles
  obtain ⟨otherCatalog, otherLoaded, otherCompiled⟩ := compilesOther
  rw [loaded] at otherLoaded
  cases otherLoaded
  rw [compiled] at otherCompiled
  exact Except.ok.inj otherCompiled

theorem Delivers.delivered (lawful : host.Lawful view)
    (delivers : host.Delivers state options program (.ok ()) after) :
    host.Delivered view state options program (Status.of (.ok ())) after := by
  cases delivers with
  | shown unasked =>
      refine ⟨rfl, lawful.printed_showing, fun _ => lawful.contents_showing,
        fun asked => ?_⟩
      rw [unasked] at asked
      cases asked
  | @written path file opened _ asked created stored =>
      refine ⟨rfl, ?_, fun unasked => ?_, fun _ => ⟨file, opened,
        lawful.writesOnly asked created stored, ?_⟩⟩
      · have opening := lawful.create_printed
          (host.showing state options program) path
        have storing := lawful.store_printed opened file program.toImage
        rw [created] at opening
        rw [stored] at storing
        rw [storing, opening, lawful.printed_showing]
      · rw [asked] at unasked
        cases unasked
      · have holds := lawful.store_ok stored (lawful.create_ok created).1
        rwa [List.nil_append] at holds

/-- Without a wish for tokens or a tree, a compilation fails where compiling
does, and otherwise it delivers the compiled program. -/
theorem Ends.compiles
    (ends : host.Ends state path options (.ok source) result after)
    (noTokens : options.has .tokens = false)
    (noTree : options.has .tree = false) :
    ((∃ failure, result = .error failure) ∧
        ∀ program, ¬ host.Compiles state options source program) ∨
      ∃ program, host.Compiles state options source program ∧
        host.Delivers state options program result after := by
  cases ends with
  | tokens _ asked =>
      rw [noTokens] at asked
      cases asked
  | tree _ _ asked =>
      rw [noTree] at asked
      cases asked
  | unscanned failed =>
      refine .inl ⟨⟨_, rfl⟩, fun program ⟨catalog, _, compiled⟩ => ?_⟩
      rw [Program.compile_of_scan_error failed] at compiled
      cases compiled
  | unparsed scanned failed =>
      refine .inl ⟨⟨_, rfl⟩, fun program ⟨catalog, _, compiled⟩ => ?_⟩
      rw [Program.compile_of_parse_error scanned failed] at compiled
      cases compiled
  | uncataloged _ _ failed =>
      refine .inl ⟨⟨_, rfl⟩, fun program ⟨catalog, loaded, _⟩ => ?_⟩
      rw [failed] at loaded
      cases loaded
  | unassembled loaded failed =>
      refine .inl ⟨⟨_, rfl⟩, fun program ⟨catalog, reloaded, compiled⟩ => ?_⟩
      cases loaded.symm.trans reloaded
      cases failed.symm.trans compiled
  | delivered loaded compiled _ _ delivers =>
      exact .inr ⟨_, ⟨_, loaded, compiled⟩, delivers⟩

theorem Lawful.run_of_compile (lawful : host.Lawful view) (state : State)
    (request : Request.ofArguments? arguments =
      some (.compile path options)) :
    ∃ result after,
      host.Ends state path options (host.textOf state path) result after ∧
        (host.run arguments).run state = (Status.of result, after) := by
  refine ⟨_, _, lawful.ends state path options, ?_⟩
  rw [run, request]
  dsimp only
  rw [StateT.run_bind]
  -- Only the result decides about the status.
  unfold perform
  generalize (host.compile path options).run.run state = outcome
  obtain ⟨result, after⟩ := outcome
  cases result <;> rfl

end Host

/-! ## A catalog file and a script -/

def houseDirectory : Directory where
  files :=
    [("door.txt", Catalog.gateText.toUTF8.data.toList),
      ("house", (Node.render twinScript).toUTF8.data.toList)]

def houseArguments : List String :=
  ["-cdoor.txt", "--disasm", "./house", "-o", "house.bin"]

def houseOptions : Options :=
  ⟨some "door.txt", some "house.bin", [.listing]⟩

theorem request_house :
    Request.ofArguments? houseArguments =
      some (.compile "./house" houseOptions) := by
  decide +kernel

theorem textOf_house :
    Session.host.textOf { directory := houseDirectory } "./house" =
      .ok (Node.render twinScript) :=
  Directory.readText_eq (by decide) rfl rfl

theorem compiles_house :
    Session.host.Compiles { directory := houseDirectory } houseOptions
      (Node.render twinScript) twinProgram := by
  refine ⟨doorCatalog, ?_, compile_twins⟩
  have reads : houseDirectory.readText "door.txt" = .ok Catalog.gateText :=
    Directory.readText_eq (by decide) rfl rfl
  change Catalog.ofFile "door.txt" (houseDirectory.readText "door.txt") = _
  rw [reads, Catalog.ofFile, Catalog.parse_gateText]
  rfl

theorem create_house {session : Session}
    (same : session.directory = houseDirectory) :
    (Session.host.create "house.bin").run session =
      (.ok "house.bin",
        { session with directory := houseDirectory.put "house.bin" [] }) := by
  apply Session.create_run_of_ok
  rw [same]
  rfl

/-- On a medium that is full, a run that fails leaves an empty file behind. -/
theorem fullHost_house :
    ∃ session, (Session.fullHost.run houseArguments).run
        { directory := houseDirectory } =
          (Status.of (.error ⟨"failed to write 'house.bin'",
            some "No space left on device (os error 28)"⟩), session) ∧
      session.directory.get? "house.bin" = some [] := by
  obtain ⟨result, session, ends, ran⟩ :=
    Session.fullHost_lawful.run_of_compile { directory := houseDirectory }
      request_house
  have reads : Session.fullHost.textOf { directory := houseDirectory }
      "./house" = .ok (Node.render twinScript) := textOf_house
  rw [reads] at ends
  obtain ⟨_, none⟩ | ⟨program, _, delivers⟩ := ends.compiles rfl rfl
  · exact absurd compiles_house (none twinProgram)
  have created : (Session.fullHost.create "house.bin").run
      (Session.fullHost.showing { directory := houseDirectory } houseOptions
        program) = _ := create_house rfl
  cases delivers with
  | shown unasked => cases unasked
  | written _ _ stored => cases stored
  | refused asked failed =>
      cases asked
      cases created.symm.trans failed
  | brokenOff asked opened failed =>
      cases asked
      cases created.symm.trans opened
      cases failed
      exact ⟨_, ran, Directory.get?_put_self⟩

end TriggerScript.Command
