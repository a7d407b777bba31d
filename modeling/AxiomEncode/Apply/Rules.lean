/-
# Apply.Rules -- one rule for each program that the transaction is made of

An assertion speaks of the tree and of the progress of the transaction.  The rule
of a program says between which assertions it leads, what it leaves when a step
fails or the process is killed, and which steps can fail by themselves at all.
-/
import AxiomEncode.Apply.Progress

namespace AxiomEncode.Apply

open Theory Crash

set_option autoImplicit false

/-- What is said of a tree and of the progress made. -/
abbrev Assertion := Tree → Progress → Prop

/-- Wherever `A` is said, `B` can be said too. -/
def Assertion.Entails (A B : Assertion) : Prop := ∀ tree found, A tree found → B tree found

/-- The assertion holds of a world in which a transaction began. -/
def Assertion.Holds (A : Assertion) (world : World fileMachine) : Prop :=
  ∃ found, progress world.log = some found ∧ A world.state.node found

/-- `A` before; `B`, `G` or `K` after an answer, an error or a kill. -/
def Spec {α : Type} (allow : Event FileChoice → Prop) (A : Assertion) (program : Run α)
    (B : α → Assertion) (G : ApplyError → Assertion) (K : Assertion) : Prop :=
  Triple (M := fileMachine) allow A.Holds program (fun value => (B value).Holds)
    (fun error => (G error).Holds) K.Holds

/-- Where a run may be killed, `K` is said of what `A` is said of. -/
def Killed (allow : Event FileChoice → Prop) (A K : Assertion) : Prop :=
  allow .kill → A.Entails K

/-- Where a step may be made to fail, `G` is said of what that leaves. -/
def Faulted (allow : Event FileChoice → Prop) (A : Assertion) (op : FileOp)
    (G : ApplyError → Assertion) : Prop :=
  allow .fault → ∀ (checkout : Checkout) found, A checkout.node found →
    G .injected checkout.node (found.note ⟨op, true, checkout⟩)

variable {α β : Type} {allow : Event FileChoice → Prop} {A A' : Assertion} {B B' : α → Assertion}
  {C : β → Assertion} {G G' : ApplyError → Assertion} {K K' : Assertion} {program : Run α}
variable {world : World fileMachine} {op : FileOp} {faulted : Bool} {tree : Tree}
  {path directory target : Path} {found : Progress} {what : String} {mode : Nat} {raw : Bytes}
  {R : Assertion}

theorem Assertion.Holds.mono (holds : A.Holds world) (weaker : A.Entails A') : A'.Holds world := by
  obtain ⟨found, here, said⟩ := holds
  exact ⟨found, here, weaker _ _ said⟩

theorem Assertion.Holds.mark {after : Checkout} (holds : A.Holds world)
    (next : ∀ found, A world.state.node found →
      A' after.node (found.note ⟨op, faulted, after⟩)) :
    A'.Holds (world.mark op faulted after) := by
  obtain ⟨found, here, said⟩ := holds
  exact ⟨_, progress_cons here _, next found said⟩

namespace Spec

theorem mono (spec : Spec allow A program B G K) (pre : A'.Entails A)
    (post : ∀ value tree found, B value tree found → B' value tree found)
    (raised : ∀ error tree found, G error tree found → G' error tree found)
    (killed : K.Entails K') : Spec allow A' program B' G' K' :=
  Triple.mono spec (fun _ holds => holds.mono pre) (fun value _ holds => holds.mono (post value))
    (fun error _ holds => holds.mono (raised error)) (fun _ holds => holds.mono killed)

theorem pre (spec : Spec allow A program B G K)
    (weaker : A'.Entails A) : Spec allow A' program B G K :=
  spec.mono weaker (fun _ _ _ h => h) (fun _ _ _ h => h) (fun _ _ h => h)

theorem post (spec : Spec allow A program B G K)
    (stronger : ∀ value tree found, B value tree found → B' value tree found) :
    Spec allow A program B' G K :=
  spec.mono (fun _ _ h => h) stronger (fun _ _ _ h => h) (fun _ _ h => h)

theorem bind {next : α → Run β} (first : Spec allow A program B G K)
    (then_ : ∀ value, Spec allow (B value) (next value) C G K) :
    Spec allow A (program >>= next) C G K :=
  triple_bind first then_

theorem pure {value : α} (holds : A.Entails (B value)) :
    Spec allow A (Pure.pure value : Run α) B G K :=
  triple_pure fun _ here => here.mono holds

theorem raise {error : ApplyError} (holds : A.Entails (G error)) :
    Spec allow A (Prog.raise error : Run α) B G K :=
  triple_raise fun _ here => here.mono holds

variable {F : ApplyError → Assertion}

theorem tryCatch {handler : ApplyError → Run α} (body : Spec allow A program B F K)
    (handle : ∀ error, Spec allow (F error) (handler error) B G K) :
    Spec allow A (Prog.tryCatch program handler) B G K :=
  triple_tryCatch body handle

theorem tryFinally {R : α → Assertion} {last : Run Unit} (body : Spec allow A program R F K)
    (answered : ∀ value, Spec allow (R value) last (fun _ => B value) G K)
    (failed : ∀ error, Spec allow (F error) last (fun _ => G error) G K) :
    Spec allow A (Prog.tryFinally program last) B G K :=
  triple_tryFinally body answered failed

theorem forEach {γ : Type} {body : γ → Run Unit} {I : List γ → Assertion} (xs : List γ)
    (turn : ∀ x rest, x :: rest <:+ xs →
      Spec allow (I (x :: rest)) (body x) (fun _ => I rest) G K) :
    Spec allow (I xs) (Prog.forEach xs body) (fun _ => I []) G K :=
  triple_forEach (I := fun rest => (I rest).Holds) xs turn

/-- A fact that does not speak of the world moves out of the assertion. -/
theorem of_fact {φ : Prop} (spec : φ → Spec allow A program B G K) :
    Spec allow (fun tree found => φ ∧ A tree found) program B G K := by
  rintro schedule world admitted ⟨found, here, fact, said⟩
  exact spec fact schedule world admitted ⟨found, here, said⟩

theorem of_or (left : Spec allow A program B G K) (right : Spec allow A' program B G K) :
    Spec allow (fun tree found => A tree found ∨ A' tree found) program B G K := by
  rintro schedule world admitted ⟨found, here, said | said⟩
  · exact left schedule world admitted ⟨found, here, said⟩
  · exact right schedule world admitted ⟨found, here, said⟩

/-- One step: when it is killed before it, made to fail, fails by itself or acts. -/
theorem perform {B : FileRes → Assertion} (killed : Killed allow A K)
    (faulted : Faulted allow A op G)
    (failed : ∀ (checkout : Checkout) found choice error, A checkout.node found →
      fileAct op choice checkout = .error error →
        G error checkout.node (found.note ⟨op, false, checkout⟩))
    (acted : ∀ (checkout after : Checkout) found choice res, A checkout.node found →
      fileAct op choice checkout = .ok (res, after) →
        B res after.node (found.note ⟨op, false, after⟩)) :
    Spec allow A (Prog.perform op : Run FileRes) B G K := by
  refine triple_perform ?_ ?_ ?_ ?_
  · exact fun admitted world holds => holds.mono (killed admitted)
  · exact fun admitted world holds => holds.mark fun found said => faulted admitted _ found said
  · exact fun world choice error holds result =>
      holds.mark fun found said => failed _ found choice error said result
  · exact fun world choice res after holds result =>
      holds.mark fun found said => acted _ after found choice res said result

end Spec

/-! ## Temporary files -/

/-- The name of a temporary file. -/
def IsTemporary (path : Path) : Prop :=
  ∃ (directory : Path) (stem part : Text), IsTemporaryPart part ∧
    path = directory ++ ['.' :: stem ++ ".apply-".toList ++ part]

/-- A name that no temporary file has: a dot is among its last eight characters. -/
theorem not_isTemporary {path : Path} {stem suffix : Text}
    (name : path.getLast? = some (stem ++ suffix)) (short : suffix.length ≤ 8)
    (dot : '.' ∈ suffix) : ¬ IsTemporary path := by
  rintro ⟨directory, before, part, ⟨long, none_⟩, rfl⟩
  rw [List.getLast?_concat] at name
  have same : '.' :: before ++ ".apply-".toList ++ part = stem ++ suffix := Option.some.inj name
  have tail : part <:+ stem ++ suffix := same ▸ List.suffix_append _ part
  have inside : suffix <:+ part :=
    List.suffix_of_suffix_length_le (List.suffix_append stem suffix) tail (by omega)
  exact none_ (inside.subset dot)

/-- Two trees agree but for temporary files. -/
def Agree (tree other : Tree) : Prop := ∀ path, ¬ IsTemporary path → tree path = other path

theorem Agree.refl (tree : Tree) : Agree tree tree := fun _ _ => rfl

theorem Agree.update (temporary : IsTemporary path) (node : Option Node) :
    Agree (Function.update tree path node) tree := by
  intro other plain
  refine Function.update_of_ne ?_ _ _
  rintro rfl
  exact plain temporary

/-- The assertion is kept when a step is marked that changed no more than temporary
files. -/
def Stable (A : Assertion) : Prop :=
  ∀ tree found mark, A tree found → Agree mark.after.node tree → A tree (found.note mark)

/-- `A`, but for one temporary file in the directory. -/
def WithTemporary (directory : Path) (A : Assertion) : Assertion := fun tree found =>
  ∃ base path raw mode, A base found ∧ base path = none ∧ IsTemporary path ∧
    path.dropLast = directory ∧ tree = Function.update base path (some (.file raw mode))

/-- With more said of the tree alone an assertion stays stable. -/
theorem stable_and {L : Tree → Prop} {A : Assertion} (stable : Stable A) :
    Stable fun tree found => L tree ∧ A tree found :=
  fun _ _ _ said agree => ⟨said.1, stable _ _ _ said.2 agree⟩

theorem WithTemporary.mono (here : WithTemporary directory A tree found) (weaker : A.Entails A') :
    WithTemporary directory A' tree found := by
  obtain ⟨base, path, raw, mode, said, rest⟩ := here
  exact ⟨base, path, raw, mode, weaker _ _ said, rest⟩

namespace Spec

variable {B : α → Assertion}

/-- A step that goes through and changes nothing. -/
theorem still {B : Assertion} (stable : Stable A)
    (same : ∀ (checkout : Checkout) found choice, A checkout.node found →
      fileAct op choice checkout = .ok (⟨checkout, []⟩, checkout)) (killed : Killed allow A K)
    (faulted : Faulted allow A op G) (weaker : A.Entails B) :
    Spec allow A (step op) (fun _ => B) G K := by
  refine Spec.bind (Spec.perform (B := fun _ => A) killed faulted ?_ ?_) fun _ =>
    Spec.pure weaker
  · intro checkout found choice error said failed
    rw [same checkout found choice said] at failed
    cases failed
  · intro checkout after found choice res said done
    rw [same checkout found choice said] at done
    cases done
    exact stable _ _ _ said (Agree.refl _)

/-- A call that reads, and what it says of the tree it read. -/
theorem reading_state {read : Checkout → Except ApplyError α} (stable : Stable A)
    (killed : Killed allow A K) (faulted : Faulted allow A (.inspect what) G)
    (failed : ∀ (checkout : Checkout) found error, A checkout.node found →
      read checkout = .error error → G error checkout.node found) :
    Triple (M := fileMachine) allow A.Holds (Apply.reading what read)
      (fun value world => A.Holds world ∧ read world.state = .ok value)
      (fun error => (G error).Holds) K.Holds := by
  -- what was seen is the tree, still
  refine triple_bind (Q := fun res world => A.Holds world ∧ res.seen = world.state)
    (triple_perform ?_ ?_ ?_ ?_) fun res => ?_
  · exact fun admitted world holds => holds.mono (killed admitted)
  · exact fun admitted world holds => holds.mark fun found said => faulted admitted _ found said
  · intro world choice error _ result
    cases result
  · intro world choice res after holds result
    cases result
    exact ⟨holds.mark fun found said => stable _ _ _ said (Agree.refl _), rfl⟩
  · dsimp only
    cases result : read res.seen with
    | ok value => exact triple_pure fun world holds => ⟨holds.1, holds.2 ▸ result⟩
    | error error =>
      refine triple_raise fun world holds => ?_
      rw [holds.2] at result
      exact holds.1.imp fun found said => ⟨said.1, failed _ found error said.2 result⟩

/-- A call that reads. -/
theorem reading {read : Checkout → Except ApplyError α} (stable : Stable A)
    (killed : Killed allow A K) (faulted : Faulted allow A (.inspect what) G)
    (failed : ∀ (checkout : Checkout) found error, A checkout.node found →
      read checkout = .error error → G error checkout.node found)
    (answered : ∀ (checkout : Checkout) found value, A checkout.node found →
      read checkout = .ok value → B value checkout.node found) :
    Spec allow A (Apply.reading what read) B G K :=
  (reading_state stable killed faulted failed).post fun value _ holds =>
    holds.1.imp fun found said => ⟨said.1, answered _ found value said.2 holds.2⟩

/-- The sync of a directory that is there. -/
theorem fsyncDirectory {B : Assertion} (stable : Stable A)
    (directory : ∀ tree found, A tree found → tree.IsDirectory path) (killed : Killed allow A K)
    (faulted : Faulted allow A (.fsyncDirectory path) G) (weaker : A.Entails B) :
    Spec allow A (Apply.fsyncDirectory path) (fun _ => B) G K := by
  refine still stable ?_ killed faulted weaker
  intro checkout found choice said
  rw [act_fsyncDirectory]
  exact if_pos (Checkout.isDirectory_iff_tree.mpr (directory _ _ said))

variable {checkout : Checkout} {P P' : Bytes → Nat → Prop} {blocked : Tree → Prop} {X L : Assertion}

/-- Nothing is missing of a directory that is there. -/
theorem missingDirectories_nil {complaint : String} (here : checkout.isDirectory directory = true) :
    missingDirectories complaint directory checkout = .ok [] := by
  unfold missingDirectories
  cases reversed : directory.reverse with
  | nil => rfl
  | cons name parents =>
    have path : (name :: parents).reverse = directory := by
      rw [← reversed, List.reverse_reverse]
    have looked : ∃ mode, checkout.lookup directory = .ok (some (.directory mode)) := by
      rcases Checkout.isDirectory_iff.mp here with rfl | ⟨mode, found⟩
      · cases reversed
      · exact ⟨mode, Checkout.lookup_of_node found⟩
    obtain ⟨mode, looked⟩ := looked
    rw [missingFrom, path, looked]

/-- `_ensure_durable_directory` of a directory that is there. -/
theorem ensureDurableDirectory (stable : Stable A)
    (directory : ∀ tree found, A tree found → tree.IsDirectory path) (killed : Killed allow A K)
    (faulted : allow .fault → ∀ (checkout : Checkout) found op, A checkout.node found →
      G .injected checkout.node (found.note ⟨op, true, checkout⟩)) :
    Spec allow A (Apply.ensureDurableDirectory path mode) (fun _ => A) G K := by
  have nothing : ∀ (checkout : Checkout) found, A checkout.node found →
      missingDirectories "Directory path contains a non-directory" path checkout = .ok [] :=
    fun checkout found said =>
      missingDirectories_nil (Checkout.isDirectory_iff_tree.mpr (directory _ _ said))
  refine Spec.bind (Spec.reading (B := fun missing tree found => missing = [] ∧ A tree found)
    stable killed (fun admitted checkout found said => faulted admitted checkout found _ said)
    ?_ ?_) fun missing => ?_
  · intro checkout found error said failed
    rw [nothing checkout found said] at failed
    cases failed
  · intro checkout found value said read
    rw [nothing checkout found said] at read
    exact ⟨(Except.ok.inj read).symm, said⟩
  · refine Spec.of_fact fun none_ => ?_
    subst none_
    exact Spec.pure fun _ _ said => said

/-- What is said while there is a temporary file, its bytes and mode in `P`. -/
def Beside (A : Assertion) (path : Path) (P : Bytes → Nat → Prop) : Assertion := fun tree found =>
  IsTemporary path ∧ ∃ base raw mode, P raw mode ∧ A base found ∧ base path = none ∧
    tree = Function.update base path (some (.file raw mode))

theorem Beside.withTemporary (said : Beside A path P tree found) :
    WithTemporary path.dropLast A tree found := by
  obtain ⟨temporary, base, raw, mode, -, before, free, rfl⟩ := said
  exact ⟨base, path, raw, mode, before, free, temporary, rfl, rfl⟩

/-- A mark that only touched the temporary file. -/
theorem Beside.note {mark : Mark fileMachine} (stable : Stable A)
    (said : Beside A path P tree found) (new : P' raw mode)
    (after : mark.after.node = Function.update tree path (some (.file raw mode))) :
    Beside A path P' mark.after.node (found.note mark) := by
  obtain ⟨temporary, base, old, oldMode, -, before, free, rfl⟩ := said
  rw [Function.update_idem] at after
  refine ⟨temporary, base, raw, mode, new, stable _ _ _ before ?_, free, after⟩
  rw [after]
  exact Agree.update temporary _

/-- A mark that changed nothing. -/
theorem Beside.note_same (stable : Stable A) (said : Beside A path P checkout.node found) :
    Beside A path P checkout.node (found.note ⟨op, faulted, checkout⟩) := by
  obtain ⟨temporary, base, raw, mode, here, before, free, tree⟩ := said
  refine ⟨temporary, base, raw, mode, here, stable _ _ _ before ?_, free, tree⟩
  show Agree checkout.node base
  rw [tree]
  exact Agree.update temporary _

/-- `A`, where an error came from outside or the tree is as `blocked` says. -/
def Failing (allow : Event FileChoice → Prop) (blocked : Tree → Prop) (A : Assertion) :
    Assertion := fun tree found => A tree found ∧ (allow .fault ∨ blocked tree)

theorem Beside.failing (said : Beside A path P tree found)
    (why : allow .fault ∨ ∀ base, Agree tree base → blocked base) :
    Beside (Failing allow blocked A) path (fun _ _ => True) tree found := by
  obtain ⟨temporary, base, raw, mode, -, before, free, rfl⟩ := said
  refine ⟨temporary, base, raw, mode, trivial, ⟨before, ?_⟩, free, rfl⟩
  exact why.imp_right fun blocks => blocks base (Agree.update temporary _)

/-- A step on the temporary file.  Only the environment makes it fail. -/
theorem beside (stable : Stable A)
    (acts : ∀ (checkout : Checkout) choice raw mode, checkout.node path = some (.file raw mode) →
      ∃ res after, fileAct op choice checkout = .ok (res, after))
    (did : ∀ (checkout after : Checkout) choice res raw mode, P raw mode →
      checkout.node path = some (.file raw mode) →
      fileAct op choice checkout = .ok (res, after) → ∃ raw' mode', P' raw' mode' ∧
        after.node = Function.update checkout.node path (some (.file raw' mode')))
    (killed : Killed allow (WithTemporary path.dropLast A) K) :
    Spec allow (Beside A path P) (step op) (fun _ => Beside A path P')
      (fun _ => Beside (Failing allow blocked A) path fun _ _ => True) K := by
  have holding : ∀ (checkout : Checkout) found, Beside A path P checkout.node found →
      ∃ raw mode, P raw mode ∧ checkout.node path = some (.file raw mode) := by
    rintro checkout found ⟨-, base, raw, mode, here, -, -, tree⟩
    exact ⟨raw, mode, here, by rw [tree, Function.update_self]⟩
  refine Spec.bind (Spec.perform (B := fun _ => Beside A path P') ?_ ?_ ?_ ?_) fun _ =>
    Spec.pure fun _ _ said => said
  · exact fun admitted tree found said => killed admitted _ _ said.withTemporary
  · intro admitted checkout found said
    exact (said.note_same stable).failing (.inl admitted)
  · intro checkout found choice error said failed
    obtain ⟨raw, mode, -, file⟩ := holding checkout found said
    obtain ⟨res, after, done⟩ := acts checkout choice raw mode file
    rw [done] at failed
    cases failed
  · intro checkout after found choice res said done
    obtain ⟨raw, mode, here, file⟩ := holding checkout found said
    obtain ⟨raw', mode', new, tree⟩ := did checkout after choice res raw mode here file done
    exact said.note stable new tree

/-- `mkstemp` in a directory that is there. -/
theorem mkstemp {directory : Path} {name : Text} (stable : Stable A)
    (parent : ∀ tree found, A tree found → tree.IsDirectory directory) (killed : Killed allow A K)
    (faulted : allow .fault → A.Entails (G .injected)) :
    Spec allow A (Prog.perform (.mkstemp directory ('.' :: name ++ ".apply-".toList)))
      (fun (res : FileRes) tree found => (IsTemporary res.made ∧ res.made.dropLast = directory) ∧
        Beside A res.made (fun _ _ => True) tree found) G K := by
  refine Spec.perform killed ?_ ?_ ?_
  · exact fun admitted checkout found said =>
      faulted admitted _ _ (stable _ _ _ said (Agree.refl _))
  · intro checkout found choice error said failed
    obtain ⟨res, after, done⟩ := @exists_act_mkstemp _ choice _
      ('.' :: name ++ ".apply-".toList)
      (Checkout.isDirectory_iff_tree.mpr (parent _ _ said))
    rw [done] at failed
    cases failed
  · intro checkout after found choice res said done
    obtain ⟨-, part, temporaryPart, made, free, tree⟩ := act_mkstemp done
    have temporary : IsTemporary res.made := ⟨directory, name, part, temporaryPart, made⟩
    refine ⟨⟨temporary, by rw [made, List.dropLast_concat]⟩, temporary, checkout.node, _, _, trivial,
      stable _ _ _ said ?_, free, tree⟩
    show Agree after.node checkout.node
    rw [tree]
    exact Agree.update temporary _

/-- `X`, and nothing at `path` any more. -/
def Gone (path : Path) (X : Assertion) : Assertion := fun tree found =>
  X tree found ∧ tree path = none ∧ tree.IsDirectory path.dropLast

/-- A temporary file that is gone already. -/
theorem unlinkMissingOk_gone (stable : Stable X) (killed : Killed allow X K)
    (faulted : allow .fault → ∀ (checkout : Checkout) found op, X checkout.node found →
      G .injected checkout.node (found.note ⟨op, true, checkout⟩)) :
    Spec allow (Gone path X) (Apply.unlinkMissingOk path) (fun _ => X) G K := by
  have missing : ∀ (checkout : Checkout) choice, checkout.node path = none →
      Tree.IsDirectory checkout.node path.dropLast →
      fileAct (.unlink path) choice checkout = .error (.os .fileNotFound path) :=
    fun checkout choice gone parent =>
      act_unlink_missing gone (Checkout.isDirectory_iff_tree.mpr parent)
  refine Spec.tryCatch (F := fun error tree found =>
    (error = .os .fileNotFound path ∧ X tree found) ∨
      (error = .injected ∧ G .injected tree found)) ?_ fun error => ?_
  · refine Spec.bind (Spec.perform (B := fun _ => X) ?_ ?_ ?_ ?_) fun _ =>
      Spec.pure fun _ _ said => said
    · exact fun admitted tree found said => killed admitted _ _ said.1
    · exact fun admitted checkout found said => .inr ⟨rfl, faulted admitted _ _ _ said.1⟩
    · intro checkout found choice error said failed
      rw [missing checkout choice said.2.1 said.2.2] at failed
      cases failed
      exact .inl ⟨rfl, stable _ _ _ said.1 (Agree.refl _)⟩
    · intro checkout after found choice res said done
      rw [missing checkout choice said.2.1 said.2.2] at done
      cases done
  · refine Spec.of_or (Spec.of_fact fun which => ?_) (Spec.of_fact fun which => ?_)
    · subst which
      exact Spec.pure fun _ _ said => said
    · subst which
      exact Spec.raise fun _ _ said => said

/-- A temporary file that is still there. -/
theorem unlinkMissingOk_beside {G K : Assertion} (stable : Stable X)
    (killed : Killed allow (WithTemporary path.dropLast X) K)
    (faulted : allow .fault → (WithTemporary path.dropLast X).Entails G) :
    Spec allow (Beside X path fun _ _ => True) (Apply.unlinkMissingOk path) (fun _ => X)
      (fun _ => G) K := by
  have there : ∀ (checkout : Checkout) found choice,
      Beside X path (fun _ _ => True) checkout.node found →
        ∃ res after, fileAct (.unlink path) choice checkout = .ok (res, after) := by
    rintro checkout found choice ⟨-, base, raw, mode, -, -, -, tree⟩
    exact @exists_act_unlink _ _ _ raw mode (by rw [tree, Function.update_self])
  refine Spec.tryCatch (F := fun error tree found => error = .injected ∧ G tree found) ?_
    fun error => ?_
  · refine Spec.bind (Spec.perform (B := fun _ => X) ?_ ?_ ?_ ?_) fun _ =>
      Spec.pure fun _ _ said => said
    · exact fun admitted tree found said => killed admitted _ _ said.withTemporary
    · intro admitted checkout found said
      exact ⟨rfl, faulted admitted _ _ (said.note_same stable).withTemporary⟩
    · intro checkout found choice error said failed
      obtain ⟨res, after, done⟩ := there checkout found choice said
      rw [done] at failed
      cases failed
    · intro checkout after found choice res said done
      obtain ⟨-, -, -, tree⟩ := act_unlink done
      obtain ⟨temporary, base, raw, mode, -, before, free, was⟩ := said
      have back : after.node = base := by
        rw [tree, was, Function.update_idem, ← free, Function.update_eq_self]
      rw [back]
      refine stable _ _ _ before ?_
      show Agree after.node base
      rw [back]
      exact Agree.refl _
  · refine Spec.of_fact fun which => ?_
    subst which
    exact Spec.raise fun _ _ said => said

/-- The rename of a temporary file that is ready: from `A` to `B` in one step. -/
theorem rename {temporary : Path} {B : Assertion} (stable : Stable A)
    (parent : ∀ tree found, A tree found → tree.IsDirectory target.dropLast)
    (nonempty : target ≠ []) (apart : temporary ≠ target)
    (sameDirectory : temporary.dropLast = target.dropLast)
    (commit : ∀ tree found mark, A tree found → ¬ tree.IsDirectory target →
      mark.faulted = false →
      mark.after.node = Function.update tree target (some (.file raw mode)) →
        B mark.after.node (found.note mark))
    (killed : Killed allow (WithTemporary temporary.dropLast A) K) :
    Spec allow (Beside A temporary fun now nowMode => now = raw ∧ nowMode = mode)
      (step (.replace temporary target)) (fun _ => Gone temporary B)
      (fun _ tree found => Beside (Failing allow (Tree.IsDirectory · target) A) temporary
        (fun _ _ => True) tree found ∨ Gone temporary L tree found) K := by
  have open_iff : ∀ (checkout : Checkout) (base : Tree), checkout.node target = base target →
      (checkout.isDirectory target = false ↔ ¬ base.IsDirectory target) := by
    intro checkout base same
    rw [← Bool.not_eq_true, Checkout.isDirectory_iff_tree]
    unfold Tree.IsDirectory
    rw [same]
  refine Spec.bind (Spec.perform (B := fun _ => Gone temporary B) ?_ ?_ ?_ ?_) fun _ =>
    Spec.pure fun _ _ said => said
  · exact fun admitted tree found said => killed admitted _ _ said.withTemporary
  · exact fun admitted checkout found said =>
      .inl ((said.note_same stable).failing (.inl admitted))
  · rintro checkout found choice error ⟨named, base, now, nowMode, -, before, free, tree⟩ failed
    have file : checkout.node temporary = some (.file now nowMode) := by
      rw [tree, Function.update_self]
    have same : checkout.node target = base target := by
      rw [tree, Function.update_of_ne apart.symm]
    have blocked : base.IsDirectory target := by
      by_contra open_
      have parentHere : checkout.isDirectory target.dropLast = true := by
        rw [← sameDirectory]
        exact Checkout.isDirectory_dropLast file
      obtain ⟨res, after, done⟩ := @exists_act_replace _ choice _ _ _ _ apart file nonempty
        parentHere ((open_iff checkout base same).mpr open_)
      rw [done] at failed
      cases failed
    refine .inl ⟨named, base, now, nowMode, trivial, ⟨stable _ _ _ before ?_, .inr blocked⟩, free,
      tree⟩
    show Agree checkout.node base
    rw [tree]
    exact Agree.update named _
  · rintro checkout after found choice res ⟨-, base, now, nowMode, ready, before, free, tree⟩ done
    rw [ready.1, ready.2] at tree
    have file : checkout.node temporary = some (.file raw mode) := by
      rw [tree, Function.update_self]
    have same : checkout.node target = base target := by
      rw [tree, Function.update_of_ne apart.symm]
    obtain ⟨_, _, source, open_, replaced⟩ := act_replace apart done
    rw [file] at source
    cases source
    have renamed : after.node = Function.update base target (some (.file raw mode)) := by
      have kept := Function.update_eq_self temporary base
      rw [free] at kept
      rw [replaced, tree, Function.update_comm apart.symm, Function.update_idem, kept]
    refine ⟨commit base found ⟨.replace temporary target, false, after⟩ before
      ((open_iff checkout base same).mp open_) rfl renamed, ?_, ?_⟩
    · rw [renamed, Function.update_of_ne apart, free]
    · rw [renamed, sameDirectory]
      refine (parent base found before).imp_right fun ⟨parentMode, here⟩ => ⟨parentMode, ?_⟩
      rw [Function.update_of_ne (Checkout.dropLast_ne_self nonempty), here]

/-- `_atomic_replace_bytes`: from `A` to `B` in one step.  Nothing but a directory at
the target and the environment stops it, and after the step only the environment
does, in `L`. -/
theorem atomicReplaceBytes {B G : Assertion} (stableA : Stable A) (stableB : Stable B)
    (stableL : Stable L) (parent : ∀ tree found, A tree found → tree.IsDirectory target.dropLast)
    (nonempty : target ≠ []) (plain : ¬ IsTemporary target)
    (commit : ∀ tree found mark, A tree found → ¬ tree.IsDirectory target →
      mark.faulted = false →
      mark.after.node = Function.update tree target (some (.file raw mode)) →
        B mark.after.node (found.note mark))
    (own : ∀ tree found, A tree found → tree.IsDirectory target → G tree found)
    (faultedA : allow .fault → A.Entails G)
    (faultedT : allow .fault → (WithTemporary target.dropLast A).Entails G)
    (faultedB : allow .fault → ∀ (checkout : Checkout) found op, B checkout.node found →
      L checkout.node (found.note ⟨op, true, checkout⟩)) (late : L.Entails G)
    (killedA : Killed allow A K) (killedT : Killed allow (WithTemporary target.dropLast A) K)
    (killedB : Killed allow B K) (killedL : Killed allow L K) :
    Spec allow A (Apply.atomicReplaceBytes target raw mode) (fun _ => B) (fun _ => G) K := by
  refine Spec.bind (Spec.ensureDurableDirectory stableA parent killedA
    fun admitted checkout found op said =>
      faultedA admitted _ _ (stableA _ _ _ said (Agree.refl _))) fun _ => ?_
  refine Spec.bind (@Spec.mkstemp _ _ _ _ _ (fileName target) stableA parent killedA faultedA)
    fun res => Spec.of_fact ?_
  rintro ⟨named, sameDirectory⟩
  have apart : res.made ≠ target := by
    rintro same
    exact plain (same ▸ named)
  rw [← sameDirectory] at faultedT killedT
  let Failed : Assertion := Beside (Failing allow (Tree.IsDirectory · target) A) res.made
    fun _ _ => True
  refine Spec.tryFinally (R := fun _ => Gone res.made B)
    (F := fun _ tree found => Failed tree found ∨ Gone res.made L tree found) ?_ ?_ ?_
  · -- the temporary file is written, renamed and its directory synced
    have liftFailed : ∀ {P : Assertion} {program : Run Unit} {Q : Unit → Assertion},
        Spec allow P program Q (fun _ => Failed) K → Spec allow P program Q
          (fun _ tree found => Failed tree found ∨ Gone res.made L tree found) K :=
      fun spec => spec.mono (fun _ _ h => h) (fun _ _ _ h => h) (fun _ _ _ h => .inl h)
        (fun _ _ h => h)
    refine Spec.bind (B := fun _ => Beside A res.made fun _ _ => True) (liftFailed
      (Spec.beside stableA (fun _ _ _ _ file => exists_act_rewrite file) ?_ killedT)) fun _ => ?_
    · intro checkout after choice res' old oldMode _ file done
      obtain ⟨_, _, _, tree⟩ := act_rewrite done
      exact ⟨_, _, trivial, tree⟩
    refine Spec.bind (B := fun _ => Beside A res.made fun now _ => now = raw) (liftFailed
      (Spec.beside stableA (fun _ _ _ _ file => exists_act_rewrite file) ?_ killedT)) fun _ => ?_
    · intro checkout after choice res' old oldMode _ file done
      obtain ⟨_, _, _, tree⟩ := act_rewrite done
      exact ⟨_, _, rfl, tree⟩
    refine Spec.bind (B := fun _ => Beside A res.made fun now nowMode => now = raw ∧ nowMode = mode)
      (liftFailed (Spec.beside stableA (fun _ _ _ _ file => exists_act_chmod file) ?_ killedT))
      fun _ => ?_
    · intro checkout after choice res' old oldMode written file done
      obtain ⟨now, _, here, tree⟩ := act_chmod done
      rw [file] at here
      cases here
      exact ⟨_, _, ⟨written, rfl⟩, tree⟩
    refine Spec.bind (B := fun _ => Beside A res.made fun now nowMode => now = raw ∧ nowMode = mode)
      (liftFailed (Spec.beside stableA ?_ ?_ killedT)) fun _ => ?_
    · intro checkout choice raw mode file
      exact ⟨⟨checkout, []⟩, checkout, by rw [act_fsync, file]; rfl⟩
    · intro checkout after choice res' old oldMode written file done
      rw [act_fsync, file] at done
      cases done
      exact ⟨_, _, written, by rw [← file, Function.update_eq_self]⟩
    refine Spec.bind
      (Spec.rename stableA parent nonempty apart sameDirectory commit killedT) fun _ => ?_
    refine Spec.fsyncDirectory (A := Gone res.made B) ?_ ?_ (fun admitted _ _ said => killedB admitted _ _ said.1) ?_
      fun _ _ said => said
    · exact fun tree found mark said agree => ⟨stableB _ _ _ said.1 agree, said.2⟩
    · exact fun tree found said => sameDirectory ▸ said.2.2
    · exact fun admitted checkout found said => .inr ⟨faultedB admitted _ _ _ said.1, said.2⟩
  · exact fun _ => Spec.unlinkMissingOk_gone stableB killedB
      fun admitted checkout found op said => late _ _ (faultedB admitted checkout found op said)
  · intro error
    refine Spec.of_or ?_ ?_
    · refine (Spec.unlinkMissingOk_beside (X := Failing allow (Tree.IsDirectory · target) A)
        (G := G) (K := K) ?_ ?_ ?_).post ?_
      · exact fun tree found mark said agree => ⟨stableA _ _ _ said.1 agree, said.2⟩
      · rintro admitted tree found ⟨base, path, raw', mode', said, free, named, inside, rfl⟩
        exact killedT admitted _ _ ⟨base, path, raw', mode', said.1, free, named, inside, rfl⟩
      · rintro admitted tree found ⟨base, path, raw', mode', said, free, named, inside, rfl⟩
        exact faultedT admitted _ _ ⟨base, path, raw', mode', said.1, free, named, inside, rfl⟩
      · exact fun _ tree found said =>
          said.2.elim (fun admitted => faultedA admitted _ _ said.1) (own _ _ said.1)
    · exact (Spec.unlinkMissingOk_gone stableL killedL fun _ checkout found op said =>
        late _ _ (stableL _ _ _ said (Agree.refl _))).post fun _ _ _ said => late _ _ said

/-- `shutil.rmtree`, in whatever order: each deletion keeps `R`. -/
theorem removeTree {root : Path} {G : Assertion} (stable : Stable R)
    (below : ∀ tree found mark leaf, R tree found → root <+: leaf → mark.faulted = false →
      mark.after.node = Function.update tree leaf none → R mark.after.node (found.note mark))
    (faulted : allow .fault → ∀ (checkout : Checkout) found op, R checkout.node found →
      G checkout.node (found.note ⟨op, true, checkout⟩)) (killed : Killed allow R K) :
    Spec allow R (Apply.removeTree root) (fun _ tree found => R tree found ∧ tree root = none)
      (fun _ => G) K := by
  -- as many deletions are left as there are nodes
  let Left (count : Nat) : World fileMachine → Prop := fun world =>
    R.Holds world ∧ (world.state.below root).length = count
  refine triple_bind (Q := fun count => Left count) ?_ fun count => ?_
  · refine (Spec.reading_state stable killed (fun admitted checkout found said =>
      faulted admitted _ _ _ said) nofun).post fun count world holds => ?_
    exact ⟨holds.1, Except.ok.inj holds.2⟩
  · refine Triple.post (Q := fun _ => Left 0) ?_ fun _ world holds =>
      holds.1.imp fun found said =>
        ⟨said.1, said.2, below_eq_nil (List.eq_nil_of_length_eq_zero holds.2)⟩
    refine (triple_forEach (I := fun rest => Left rest.length) (List.range count)
      fun x rest _ => ?_).pre fun world holds => by
        rw [List.length_range]
        exact holds
    refine triple_bind (Q := fun _ => Left rest.length) (triple_perform ?_ ?_ ?_ ?_)
      fun _ => triple_pure fun _ holds => holds
    · exact fun admitted world holds => holds.1.mono (killed admitted)
    · exact fun admitted world holds => holds.1.mark fun found said => faulted admitted _ _ _ said
    · intro world choice error holds failed
      have left : world.state.below root ≠ [] := by
        intro none_
        have := holds.2
        rw [none_] at this
        cases this
      obtain ⟨res, after, done⟩ := @exists_act_removeBelow _ choice _ left
      change fileAct (.removeBelow root) choice world.state = _ at failed
      rw [done] at failed
      cases failed
    · intro world choice res after holds done
      obtain ⟨leaf, inside, -, tree, length⟩ := act_removeBelow done
      refine ⟨holds.1.mark fun found said =>
        below _ _ ⟨.removeBelow root, false, after⟩ leaf said inside rfl tree, ?_⟩
      have := holds.2
      rw [List.length_cons] at this
      show (after.below root).length = rest.length
      omega

end Spec

/-! ## Where it does no harm that a step fails

`I` holds before a step and so it holds after one that failed, or was killed. -/

namespace Spec

variable {I : Assertion}

/-- An answer is given on a tree of a checkout. -/
theorem post_checkout {B' : α → Assertion} (spec : Spec allow A program B G K)
    (stronger : ∀ value (checkout : Checkout) found, B value checkout.node found →
      B' value checkout.node found) : Spec allow A program B' G K :=
  Triple.mono spec (fun _ h => h) (fun value world holds =>
    holds.imp fun found said => ⟨said.1, stronger value world.state found said.2⟩)
    (fun _ _ h => h) fun _ h => h

theorem of_exists {ι : Sort*} {A : ι → Assertion} (spec : ∀ i, Spec allow (A i) program B G K) :
    Spec allow (fun tree found => ∃ i, A i tree found) program B G K := by
  rintro schedule world admitted ⟨found, here, i, said⟩
  exact spec i schedule world admitted ⟨found, here, said⟩

variable {Φ : ApplyError → Prop}

/-- A call that reads, and which errors it raises. -/
theorem lookAs {read : Checkout → Except ApplyError α} (stable : Stable A) (weaker : A.Entails I)
    (injected : Φ .injected) (own : ∀ checkout error, read checkout = .error error → Φ error)
    (answered : ∀ (checkout : Checkout) found value, A checkout.node found →
      read checkout = .ok value → B value checkout.node found) :
    Spec allow A (Apply.reading what read) B (fun error tree found => Φ error ∧ I tree found) I :=
  reading stable (fun _ => weaker)
    (fun _ _ _ said => ⟨injected, weaker _ _ (stable _ _ _ said (Agree.refl _))⟩)
    (fun checkout _ error said failed => ⟨own checkout error failed, weaker _ _ said⟩) answered

/-- A call that reads. -/
theorem look {read : Checkout → Except ApplyError α} (stable : Stable A) (weaker : A.Entails I)
    (answered : ∀ (checkout : Checkout) found value, A checkout.node found →
      read checkout = .ok value → B value checkout.node found) :
    Spec allow A (Apply.reading what read) B (fun _ => I) I :=
  (lookAs (Φ := fun _ => True) stable weaker trivial (fun _ _ _ => trivial) answered).mono
    (fun _ _ h => h) (fun _ _ _ h => h) (fun _ _ _ h => h.2) fun _ _ h => h

/-- A step, by what it does, and which errors it raises. -/
theorem changeAs {B : Assertion} (stable : Stable A)
    (weaker : A.Entails I) (injected : Φ .injected)
    (own : ∀ choice checkout error, fileAct op choice checkout = .error error → Φ error)
    (acted : ∀ (checkout : Checkout) (mark : Mark fileMachine) found choice res,
      A checkout.node found → fileAct op choice checkout = .ok (res, mark.after) →
        B mark.after.node (found.note mark)) :
    Spec allow A (step op) (fun _ => B) (fun error tree found => Φ error ∧ I tree found) I := by
  have same : ∀ (checkout : Checkout) found op faulted, A checkout.node found →
      I checkout.node (found.note ⟨op, faulted, checkout⟩) :=
    fun checkout found op faulted said => weaker _ _ (stable _ _ _ said (Agree.refl _))
  exact Spec.bind (Spec.perform (B := fun _ => B) (fun _ => weaker)
    (fun _ checkout found said => ⟨injected, same checkout found op true said⟩)
    (fun checkout found choice error said failed =>
      ⟨own choice checkout error failed, same checkout found op false said⟩)
    fun checkout after found choice res => acted checkout ⟨op, false, after⟩ found choice res)
      fun _ => Spec.pure fun _ _ said => said

/-- A step, by what it does. -/
theorem change {B : Assertion} (stable : Stable A) (weaker : A.Entails I)
    (acted : ∀ (checkout : Checkout) (mark : Mark fileMachine) found choice res,
      A checkout.node found → fileAct op choice checkout = .ok (res, mark.after) →
        B mark.after.node (found.note mark)) :
    Spec allow A (step op) (fun _ => B) (fun _ => I) I :=
  (changeAs (Φ := fun _ => True) stable weaker trivial (fun _ _ _ _ => trivial) acted).mono
    (fun _ _ h => h) (fun _ _ _ h => h) (fun _ _ _ h => h.2) fun _ _ h => h

/-- The sync of a directory. -/
theorem syncDirectory (stable : Stable A) (weaker : A.Entails I) :
    Spec allow A (Apply.fsyncDirectory path) (fun _ => A) (fun _ => I) I := by
  refine change stable weaker fun checkout mark found choice res said done => ?_
  have same := act_fsyncDirectory_same done
  have kept := stable _ _ mark said (same ▸ Agree.refl _)
  rwa [same] at kept

/-- `_atomic_replace_bytes`: from `A` to `B` in one step. -/
theorem replaceBytes {B : Assertion} (stableA : Stable A) (stableB : Stable B)
    (weakerA : A.Entails I) (weakerT : (WithTemporary target.dropLast A).Entails I)
    (weakerB : B.Entails I)
    (parent : ∀ tree found, A tree found → tree.IsDirectory target.dropLast)
    (nonempty : target ≠ []) (plain : ¬ IsTemporary target)
    (commit : ∀ tree found mark, A tree found → ¬ tree.IsDirectory target →
      mark.after.node = Function.update tree target (some (.file raw mode)) →
        B mark.after.node (found.note mark)) :
    Spec allow A (Apply.atomicReplaceBytes target raw mode) (fun _ => B) (fun _ => I) I :=
  atomicReplaceBytes (L := B) stableA stableB stableB parent nonempty plain
    (fun tree found mark said open_ _ => commit tree found mark said open_)
    (fun tree found said _ => weakerA tree found said) (fun _ => weakerA) (fun _ => weakerT)
    (fun _ _ _ _ said => stableB _ _ _ said (Agree.refl _)) weakerB (fun _ => weakerA)
    (fun _ => weakerT) (fun _ => weakerB) fun _ => weakerB

/-- The removal of a transaction directory, each deletion keeping `R`. -/
theorem removeApplyTransactionDirectory (stable : Stable R)
    (below : ∀ tree found mark leaf, R tree found → transactionDirectory <+: leaf →
      mark.after.node = Function.update tree leaf none → R mark.after.node (found.note mark))
    (weaker : R.Entails I) :
    Spec allow R Apply.removeApplyTransactionDirectory
      (fun _ tree found => R tree found ∧ tree transactionDirectory = none) (fun _ => I) I := by
  refine Spec.bind (Spec.look (B := fun _ => R) stable weaker fun _ _ _ said _ => said) fun _ => ?_
  refine Spec.bind (Spec.removeTree stable
    (fun tree found mark leaf said inside _ => below tree found mark leaf said inside)
    (fun _ _ _ _ said => weaker _ _ (stable _ _ _ said (Agree.refl _))) fun _ => weaker) fun _ => ?_
  refine Spec.syncDirectory ?_ fun _ _ said => weaker _ _ said.1
  exact fun tree found mark said agree => ⟨stable _ _ _ said.1 agree, said.2⟩

end Spec

end AxiomEncode.Apply
