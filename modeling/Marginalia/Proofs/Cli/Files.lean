import Marginalia.Cli.Disk
import Marginalia.Cli.Program

/-!
What the commands that change documents do to the files when they fail. Nothing, as all that can go wrong comes before
the one write; but `delete-page` with a list of annotations writes twice, the list first, and if the document cannot be
written then the list stays changed.
-/

namespace Marginalia

/-- Whether a command changes a document. -/
def Subcommand.edits : Subcommand → Bool
  | .add .. | .select .. | .save .. | .strip .. | .deletePage .. => true
  | _ => false

/-- The failures of a command behind a write of its own: the document cannot be written when the list was. -/
def Subcommand.FailsLate : Subcommand → Failure → Prop
  | .deletePage path _ (some _) output, f => ∃ e, f = .unwritable (output.getD path) e
  | _, _ => False

deriving instance DecidableEq for Ending

namespace Program

section Actions

variable {σ γ β δ : Type} [Host (StateM σ)]

/-- That a host changes its files by no action but a write, and by a write only if it succeeds. -/
structure WholeWrites (files : σ → γ) : Prop where
  readFile : ∀ path w, files ((Host.readFile path : StateM σ (Except FileError Bytes)) w).2 = files w
  failedWrite : ∀ path bytes w e, ((Host.writeFile path bytes : StateM σ (Except FileError Unit)) w).1 = .error e →
    files ((Host.writeFile path bytes : StateM σ (Except FileError Unit)) w).2 = files w
  print : ∀ s w, files ((Host.print s : StateM σ Unit) w).2 = files w
  note : ∀ s w, files ((Host.note s : StateM σ Unit) w).2 = files w
  drawId : ∀ w, files ((Host.drawId : StateM σ Uuid) w).2 = files w

omit [Host (StateM σ)] in
theorem bind_ok {a : ExceptT Failure (StateM σ) β} {f : β → ExceptT Failure (StateM σ) δ} {w w' : σ} {v : β}
    (h : a w = (.ok v, w')) : (a >>= f) w = f v w' := by
  change (match a w with | (x, w') => ExceptT.bindCont f x w') = _
  rw [h]
  rfl

omit [Host (StateM σ)] in
theorem bind_error {a : ExceptT Failure (StateM σ) β} {f : β → ExceptT Failure (StateM σ) δ} {w w' : σ} {e : Failure}
    (h : a w = (.error e, w')) : (a >>= f) w = (.error e, w') := by
  change (match a w with | (x, w') => ExceptT.bindCont f x w') = _
  rw [h]
  rfl

/-- That an action leaves the files alone. -/
def Quiet (files : σ → γ) (a : ExceptT Failure (StateM σ) β) : Prop := ∀ w, files (a w).2 = files w

/-- That an action fails with certain failures only. -/
def FailsWith (late : Failure → Prop) (a : ExceptT Failure (StateM σ) β) : Prop :=
  ∀ w f, (a w).1 = .error f → late f

/-- That an action which fails leaves the files alone, certain failures apart. -/
def Spares (files : σ → γ) (late : Failure → Prop) (a : ExceptT Failure (StateM σ) β) : Prop :=
  ∀ w f, (a w).1 = .error f → files (a w).2 = files w ∨ late f

variable {files : σ → γ} {late : Failure → Prop}

omit [Host (StateM σ)]

theorem Quiet.spares {a : ExceptT Failure (StateM σ) β} (h : Quiet files a) : Spares files late a :=
  fun w _ _ => .inl (h w)

theorem quiet_pure (v : β) : Quiet files (pure v : ExceptT Failure (StateM σ) β) := fun _ => rfl

theorem quiet_throw (f : Failure) : Quiet files (throw f : ExceptT Failure (StateM σ) β) := fun _ => rfl

theorem quiet_lift {a : StateM σ β} (h : ∀ w, files (a w).2 = files w) :
    Quiet files (ExceptT.lift a : ExceptT Failure (StateM σ) β) := h

theorem Quiet.bind {a : ExceptT Failure (StateM σ) β} {f : β → ExceptT Failure (StateM σ) δ} (ha : Quiet files a)
    (hf : ∀ v, Quiet files (f v)) : Quiet files (a >>= f) := by
  intro w
  have hw := ha w
  rcases hrun : a w with ⟨e | v, w'⟩
  · rw [hrun] at hw
    rw [bind_error hrun]
    exact hw
  · rw [hrun] at hw
    rw [bind_ok hrun]
    exact (hf v w').trans hw

/-- What comes behind an action that leaves the files alone decides. -/
theorem Spares.after {a : ExceptT Failure (StateM σ) β} {f : β → ExceptT Failure (StateM σ) δ} (ha : Quiet files a)
    (hf : ∀ v, Spares files late (f v)) : Spares files late (a >>= f) := by
  intro w e he
  have hw := ha w
  rcases hrun : a w with ⟨e' | v, w'⟩
  · rw [hrun] at hw
    rw [bind_error hrun]
    exact .inl hw
  · rw [hrun] at hw
    rw [bind_ok hrun] at he ⊢
    change files w' = files w at hw
    rw [← hw]
    exact hf v w' e he

/-- What comes behind an action may only fail with failures that are set apart. -/
theorem Spares.before {a : ExceptT Failure (StateM σ) β} {f : β → ExceptT Failure (StateM σ) δ}
    (ha : Spares files late a) (hf : ∀ v, FailsWith late (f v)) : Spares files late (a >>= f) := by
  intro w e he
  have hw := ha w e
  rcases hrun : a w with ⟨e' | v, w'⟩
  · rw [hrun] at hw
    rw [bind_error hrun] at he ⊢
    cases he
    exact hw rfl
  · rw [bind_ok hrun] at he
    exact .inr (hf v w' e he)

theorem quiet_mapM {f : β → ExceptT Failure (StateM σ) δ} (hf : ∀ v, Quiet files (f v)) :
    ∀ vs : List β, Quiet files (vs.mapM f)
  | [] => quiet_pure _
  | v :: vs => by
    rw [List.mapM_cons]
    exact (hf v).bind fun _ => (quiet_mapM hf vs).bind fun _ => quiet_pure _

theorem quiet_found (x : Except DocumentError β) : Quiet files (found x : ExceptT Failure (StateM σ) β) := by
  cases x with
  | ok v => exact quiet_pure v
  | error e => exact quiet_throw _

theorem quiet_checkPage (page count : Nat) : Quiet files (checkPage page count : ExceptT Failure (StateM σ) Unit) := by
  unfold checkPage
  split
  · exact quiet_throw _
  · exact quiet_pure _

end Actions

section Commands

variable {σ γ β δ : Type} [Host (StateM σ)] {files : σ → γ} {late : Failure → Prop}

omit [Host (StateM σ)]

theorem lift_run {action : StateM σ β} {w w' : σ} {v : β} (h : action w = (v, w')) :
    (ExceptT.lift action : ExceptT Failure (StateM σ) β) w = (.ok v, w') := by
  change (match action w with | (x, w') => (Except.ok x, w')) = _
  rw [h]

theorem orFail_error {action : StateM σ (Except FileError β)} {failure : FileError → Failure} {w w' : σ}
    {e : FileError} (h : action w = (.error e, w')) : orFail failure action w = (.error (failure e), w') :=
  bind_ok (lift_run h)

theorem orFail_ok {action : StateM σ (Except FileError β)} {failure : FileError → Failure} {w w' : σ} {v : β}
    (h : action w = (.ok v, w')) : orFail failure action w = (.ok v, w') :=
  bind_ok (lift_run h)

theorem quiet_orFail {action : StateM σ (Except FileError β)} (h : ∀ w, files (action w).2 = files w)
    (failure : FileError → Failure) : Quiet files (orFail failure action) := by
  intro w
  have hw := h w
  rcases hrun : action w with ⟨e | v, w'⟩
  · rw [hrun] at hw
    rw [orFail_error hrun]
    exact hw
  · rw [hrun] at hw
    rw [orFail_ok hrun]
    exact hw

theorem failsWith_orFail {action : StateM σ (Except FileError β)} {failure : FileError → Failure}
    (h : ∀ e, late (failure e)) : FailsWith late (orFail failure action) := by
  intro w f hf
  rcases hrun : action w with ⟨e | v, w'⟩
  · rw [orFail_error hrun] at hf
    cases hf
    exact h e
  · rw [orFail_ok hrun] at hf
    cases hf

theorem FailsWith.bind {a : ExceptT Failure (StateM σ) β} {f : β → ExceptT Failure (StateM σ) δ}
    (ha : FailsWith late a) (hf : ∀ v, FailsWith late (f v)) : FailsWith late (a >>= f) := by
  intro w e he
  rcases hrun : a w with ⟨e' | v, w'⟩
  · rw [bind_error hrun] at he
    cases he
    exact ha w e (by rw [hrun])
  · rw [bind_ok hrun] at he
    exact hf v w' e he

variable [Host (StateM σ)]

theorem failsWith_note (s : String) : FailsWith late (note s : ExceptT Failure (StateM σ) Unit) :=
  fun w f h => by cases h

theorem failsWith_writeDocument {input : String} {output : Option String}
    (h : ∀ e, late (.unwritable (output.getD input) e)) (file : Bytes) :
    FailsWith late (writeDocument input output file : ExceptT Failure (StateM σ) Unit) :=
  (failsWith_orFail h).bind fun _ => failsWith_note _

variable (hhost : WholeWrites files)

include hhost

theorem quiet_print (s : String) : Quiet files (print s : ExceptT Failure (StateM σ) Unit) :=
  quiet_lift (hhost.print s)

theorem quiet_note (s : String) : Quiet files (note s : ExceptT Failure (StateM σ) Unit) :=
  quiet_lift (hhost.note _)

theorem quiet_readDocument (path : String) :
    Quiet files (readDocument path : ExceptT Failure (StateM σ) Bytes) :=
  quiet_orFail (hhost.readFile path) _

theorem quiet_identified (m : Mark Float) :
    Quiet files (identified m : ExceptT Failure (StateM σ) (Mark Float)) := by
  unfold identified
  split
  · exact quiet_pure _
  · exact (quiet_lift hhost.drawId).bind fun _ => quiet_pure _

theorem quiet_documentMarks (file : Bytes) :
    Quiet files (documentMarks file : ExceptT Failure (StateM σ) (List (Mark Float))) :=
  (quiet_found _).bind fun ms => quiet_mapM (quiet_identified hhost) ms

theorem quiet_readList (path : String) :
    Quiet files (readList path : ExceptT Failure (StateM σ) (List (Mark Float))) := by
  refine (quiet_orFail (hhost.readFile path) _).bind fun file => ?_
  split
  · exact quiet_throw _
  · split
    · exact quiet_throw _
    · exact quiet_mapM (quiet_identified hhost) _

/-- A write that fails leaves the files alone. -/
theorem spares_write (path : String) (bytes : Bytes) (failure : FileError → Failure) :
    Spares files late (orFail failure (Host.writeFile path bytes : StateM σ (Except FileError Unit))) := by
  intro w f hf
  rcases hrun : (Host.writeFile path bytes : StateM σ (Except FileError Unit)) w with ⟨e | v, w'⟩
  · have hfailed := hhost.failedWrite path bytes w e (by rw [hrun])
    rw [hrun] at hfailed
    rw [orFail_error hrun]
    exact .inl hfailed
  · rw [orFail_ok hrun] at hf
    cases hf

theorem spares_writeDocument (input : String) (output : Option String) (file : Bytes) :
    Spares files late (writeDocument input output file : ExceptT Failure (StateM σ) Unit) :=
  (spares_write hhost _ _ _).before fun _ => failsWith_note _

theorem spares_saveMarks (s : Settings) (path : String) (output : Option String) (file : Bytes) (scale : Float)
    (marks : List (Mark Float)) :
    Spares files late (saveMarks s path output file scale marks : ExceptT Failure (StateM σ) Unit) :=
  .after (quiet_found _) fun saved => spares_writeDocument hhost path output saved

theorem spares_add (s : Settings) (path : String) (request : MarkRequest) (output : Option String) :
    Spares files late (add s path request output : ExceptT Failure (StateM σ) Unit) := by
  refine .after (quiet_readDocument hhost path) fun file => ?_
  refine .after (quiet_found _) fun count => ?_
  refine .after (quiet_checkPage _ _) fun _ => ?_
  refine .after (quiet_documentMarks hhost file) fun marks => ?_
  refine .after (quiet_identified hhost _) fun fresh => ?_
  exact spares_saveMarks hhost s path output file 1 _

theorem spares_select (s : Settings) (table : Bool) (path : String) (page : Nat) (drag : ViewerBox Float)
    (kind : Option MarkKind) (output : Option String) :
    Spares files late (select s table path page drag kind output : ExceptT Failure (StateM σ) Unit) := by
  refine .after (quiet_readDocument hhost path) fun file => ?_
  refine .after (quiet_found _) fun d => ?_
  refine .after (quiet_checkPage _ _) fun _ => ?_
  cases kind with
  | none => exact (quiet_print hhost _).spares
  | some kind =>
    simp only
    split
    · exact (quiet_throw _).spares
    · split
      · exact (quiet_note hhost _).spares
      · refine .after (quiet_documentMarks hhost file) fun marks => ?_
        refine .after (quiet_mapM (quiet_identified hhost) _) fun fresh => ?_
        exact spares_saveMarks hhost s path output file 1 _

theorem spares_save (s : Settings) (path list : String) (scale : Float) (output : Option String) :
    Spares files late (save s path list scale output : ExceptT Failure (StateM σ) Unit) := by
  refine .after (quiet_readDocument hhost path) fun file => ?_
  refine .after (quiet_readList hhost list) fun marks => ?_
  exact spares_saveMarks hhost s path output file scale marks

theorem spares_strip (path : String) (output : Option String) :
    Spares files late (strip path output : ExceptT Failure (StateM σ) Unit) :=
  .after (quiet_readDocument hhost path) fun _ => spares_writeDocument hhost path output _

theorem spares_renumberList (path : String) (page : Nat) :
    Spares files late (renumberList path page : ExceptT Failure (StateM σ) Unit) := by
  refine .after (quiet_readList hhost path) fun marks => ?_
  exact (spares_write hhost _ _ _).before fun _ => failsWith_note _

/-- With a list the write of the document is the second one. -/
theorem spares_deletePage (path : String) (page : Nat) (list output : Option String)
    (h : ∀ name, list = some name → ∀ e, late (.unwritable (output.getD path) e)) :
    Spares files late (deletePage path page list output : ExceptT Failure (StateM σ) Unit) := by
  refine .after (quiet_readDocument hhost path) fun file => ?_
  refine .after (quiet_found _) fun shorter => ?_
  cases list with
  | none => exact spares_writeDocument hhost path output shorter
  | some name => exact (spares_renumberList hhost name page).before fun _ => failsWith_writeDocument (h name rfl) shorter

/-- A command that changes documents leaves the files alone when it fails, unless it fails late. -/
theorem spares_run (settingsPath : String) (s : Settings) (table : Bool) {c : Subcommand} (hc : c.edits = true) :
    Spares files c.FailsLate (run settingsPath s table c : ExceptT Failure (StateM σ) Unit) := by
  cases c with
  | add path request output => exact spares_add hhost s path request output
  | select path page drag kind output => exact spares_select hhost s table path page drag kind output
  | save path list scale output => exact spares_save hhost s path list scale output
  | strip path output => exact spares_strip hhost path output
  | deletePage path page list output =>
    refine spares_deletePage hhost path page list output fun name hname e => ?_
    subst hname
    exact ⟨e, rfl⟩
  | _ => cases hc

end Commands

section Runs

variable {σ γ : Type} [Host (StateM σ)] {files : σ → γ}

omit [Host (StateM σ)] in
theorem state_bind {β δ : Type} {a : StateM σ β} {f : β → StateM σ δ} {w w' : σ} {v : β} (h : a w = (v, w')) :
    (a >>= f) w = f v w' := by
  change (match a w with | (v, w') => f v w') = _
  rw [h]

theorem loadSettings_files (hhost : WholeWrites files) (path : String) (w : σ) :
    files ((loadSettings path : StateM σ Settings) w).2 = files w := by
  have hread := hhost.readFile path w
  rcases hrun : (Host.readFile path : StateM σ (Except FileError Bytes)) w with ⟨outcome, w'⟩
  rw [hrun] at hread
  rw [loadSettings, state_bind hrun]
  cases outcome with
  | ok file => exact hread
  | error e => exact hread

/-- A run of a command is one of its action under the settings that are loaded. -/
theorem start_run {e : Environment} {arguments : List String} {i : Invocation} {path : String} {s : Settings}
    {outcome : Except Failure Unit} {w v w' : σ} (hi : Invocation.parse e.settings arguments = .ok i)
    (hpath : e.settingsPath? i.settings = some path) (hload : (loadSettings path : StateM σ Settings) w = (s, v))
    (hrun : (run path s i.table i.command : ExceptT Failure (StateM σ) Unit) v = (outcome, w')) :
    (start e arguments : StateM σ Ending) w = (match outcome with | .ok () => .done | .error f => .failed f, w') := by
  rw [start, hi]
  simp only [hpath]
  rw [state_bind hload]
  cases outcome with
  | ok _ => exact state_bind hrun
  | error f => exact state_bind hrun

/-- Arguments that name no command touch no file. -/
theorem start_aside (hhost : WholeWrites files) {e : Environment} {arguments : List String} {aside : Aside}
    (hi : Invocation.parse e.settings arguments = .error aside) (w : σ) :
    files ((start e arguments : StateM σ Ending) w).2 = files w := by
  rw [start, hi]
  cases aside with
  | misuse => rfl
  | help => exact hhost.print _ w
  | version => exact hhost.print _ w

/-- A run that ends in an error leaves all files as they were, unless it is the removal of a page with a list of
annotations and the document cannot be written. Refused arguments are an error too. -/
theorem start_files (hhost : WholeWrites files) (e : Environment) (arguments : List String) (w : σ)
    (hedits : ∀ i, Invocation.parse e.settings arguments = .ok i → i.command.edits = true)
    (hfailed : ((start e arguments : StateM σ Ending) w).1.code ≠ 0)
    (hlate : ∀ i f, Invocation.parse e.settings arguments = .ok i →
      ((start e arguments : StateM σ Ending) w).1 = .failed f → ¬ i.command.FailsLate f) :
    files ((start e arguments : StateM σ Ending) w).2 = files w := by
  cases hi : Invocation.parse e.settings arguments with
  | error aside => exact start_aside hhost hi w
  | ok i =>
    cases hpath : e.settingsPath? i.settings with
    | none =>
      have hstart : (start e arguments : StateM σ Ending) w = (.failed .noSettingsFolder, w) := by
        rw [start, hi]
        simp only [hpath]
        rfl
      rw [hstart]
    | some path =>
      rcases hload : (loadSettings path : StateM σ Settings) w with ⟨s, v⟩
      rcases hrun : (run path s i.table i.command : ExceptT Failure (StateM σ) Unit) v with ⟨outcome, w'⟩
      have hv := loadSettings_files hhost path w
      rw [hload] at hv
      rw [start_run hi hpath hload hrun] at hfailed hlate ⊢
      cases outcome with
      | ok _ => exact absurd rfl hfailed
      | error f =>
        have hspared := spares_run hhost path s i.table (hedits i hi) v f
        rw [hrun] at hspared
        rcases hspared rfl with hsame | hf
        · exact hsame.trans hv
        · exact absurd hf (hlate i f hi rfl)

end Runs

/-- In a world of its own the program replaces whole files. -/
theorem wholeWrites_disk : WholeWrites World.disk where
  readFile := fun _ _ => rfl
  failedWrite := fun path bytes w e h => by
    change (w.changed (w.disk.write path bytes)).1 = .error e at h
    change (w.changed (w.disk.write path bytes)).2.disk = w.disk
    cases hwrite : w.disk.write path bytes with
    | ok disk =>
      rw [hwrite] at h
      cases h
    | error e => rfl
  print := fun _ _ => rfl
  note := fun _ _ => rfl
  drawId := fun _ => rfl

/-- A document with two pages. -/
def twoLeaves : Document Float :=
  let page : Object Float := .ofEntries [("Type", .nameOf "Page"), ("Parent", .ref ⟨2, 0⟩)]
  ⟨[(⟨1, 0⟩, .ofEntries [("Type", .nameOf "Catalog"), ("Pages", .ref ⟨2, 0⟩)]),
    (⟨2, 0⟩, .ofEntries [("Type", .nameOf "Pages"), ("Kids", .array [.ref ⟨3, 0⟩, .ref ⟨4, 0⟩]), ("Count", .int 2)]),
    (⟨3, 0⟩, page), (⟨4, 0⟩, page)], .ofList [("Root", .ref ⟨1, 0⟩)], 4, false⟩

/-- A list with one annotation, on the first page. -/
def firstPageList : Bytes :=
  Syntax.ascii ("[\x7b\"id\": \"11111111-1111-4111-8111-111111111111\", \"kind\": \"highlight\", \"page\": 1, " ++
    "\"x\": 10, \"y\": 20, \"width\": 30, \"height\": 40\x7d]")

/-- A folder with the document and the list. -/
def annotatedFolder : World :=
  .start ⟨[(["doc.pdf"], twoLeaves.print), (["list.json"], firstPageList)], []⟩ fun _ => .ofRandom []

def localSettings : Environment := ⟨some "settings.json", none, none⟩

/-- The removal of the first page together with its annotations in a list, to a folder that is not there. -/
def removal (list : String) : List String := ["delete-page", "doc.pdf", "1", "-a", list, "-o", "out/doc.pdf"]

/-- What becomes of the folder, and how the removal ends. -/
def removed (list : String) : Ending × World := (start localSettings (removal list) : StateM World Ending) annotatedFolder

/-- Without the list the files stay as they are. -/
theorem start_files_unlisted :
    ∃ i, Invocation.parse localSettings.settings (removal "none.json") = .ok i ∧ i.command.edits = true ∧
      (removed "none.json").1 = .failed (.unreadable "none.json" .notFound) ∧
      (removed "none.json").2.disk = annotatedFolder.disk := by
  have hending : (removed "none.json").1 = .failed (.unreadable "none.json" .notFound) := by decide +kernel
  refine ⟨_, rfl, rfl, hending, ?_⟩
  refine start_files wholeWrites_disk localSettings (removal "none.json") annotatedFolder (fun i hi => ?_) ?_
    fun i f hi hf => ?_
  · cases hi
    rfl
  · change (removed "none.json").1.code ≠ 0
    rw [hending]
    decide
  · change (removed "none.json").1 = .failed f at hf
    rw [hending] at hf
    cases hi
    cases hf
    rintro ⟨e, he⟩
    cases he

/-- With the list the run fails too, as the folder of the document is missing, but its annotation is gone by then. -/
theorem start_files_late :
    (removed "list.json").1 = .failed (.unwritable "out/doc.pdf" .notFound) ∧
      annotatedFolder.disk.file? ["list.json"] = some firstPageList ∧
      (removed "list.json").2.disk.file? ["list.json"] = some (Syntax.ascii "[]") ∧
      firstPageList ≠ Syntax.ascii "[]" := by
  decide +kernel

end Program

end Marginalia
