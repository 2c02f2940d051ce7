/-
ShowTree.Proofs.Session.Requests — what a session keeps, whatever it is asked for.

All that a session does with its cache and a watched tree is to read, to make an empty
object, and to change the record of one object and save it at once. An assertion that is
kept by reading and saving (`Sustained`) is kept by linking and by all but the two requests
that make objects. One that is kept by making objects as well (`Enduring`) is kept by every
request (`Enduring.request`), and so by any run of requests (`Enduring.watch`).
-/
import ShowTree.Proofs.Cache.Agreement
import ShowTree.Proofs.Record.Edited
import ShowTree.Session.Request

namespace ShowTree

/-- An assertion that is kept by reading, and by changing the record of one object and saving it
at once. -/
structure Sustained (known : Watched → Path → Stat → Prop)
    (kept : Watched → Path → Bool → Record → Prop) (I : Assertion Watched) : Prop where
  calm : ∀ w₀, Calm (known w₀) (kept w₀) fun c w => w = w₀ ∧ I c w₀
  editSave : ∀ {p : Place} {change : Cache → Cache}, (∀ c, Edited p c (change c)) →
    Keeps I (do modify change; Cache.save p : Work (StateM Watched) Unit)

/-- An assertion that is kept by the three things that requests are made of. -/
structure Enduring (known : Watched → Path → Stat → Prop)
    (kept : Watched → Path → Bool → Record → Prop) (I : Assertion Watched) : Prop where
  calm : ∀ w₀, Calm (known w₀) (kept w₀) fun c w => w = w₀ ∧ I c w₀
  editSave : ∀ {p : Place} {change : Cache → Cache}, (∀ c, Edited p c (change c)) →
    Keeps I (do modify change; Cache.save p : Work (StateM Watched) Unit)
  makeEmpty : ∀ kind p, Keeps I (Session.makeEmpty kind p : Work (StateM Watched) Unit)

/-- What has to do with the tree alone is kept by the two if it is kept by all courses that saving
can take. -/
theorem Sustained.of_courses {K : Watched → Prop}
    (h : ∀ {w w' : Watched} {p : Place} {isDir : Bool} {content : ByteArray} {r : Except Failure Unit},
      SaveCourse w (p.recordHolder isDir).metaDir.path (p.draftPlace isDir).path
        (p.recordPlace isDir).path content r w' → K w → K w') :
    Sustained (fun w p st => w.tree.stat p = .ok st)
      (fun w p isDir r => w.tree.recordOf .default p isDir = .ok r)
      fun c w => c.layout = .default ∧ K w where
  calm w₀ := truthful_watched.calm (fun _ h => h.1) fun _ _ _ _ h _ _ _ _ => h
  editSave {p change} hchange := by
    refine Triple.bind (Q := fun _ c w => c.layout = .default ∧ K w)
      (Triple.modify fun c w hi => ⟨(hchange c).layout.trans hi.1, hi.2⟩) fun _ => ?_
    exact triple_save_of_courses (fun hi => hi.1) (fun hi _ => hi) fun hi _ course =>
      Outcome.any ⟨hi.1, h course hi.2⟩

/-- An assertion is kept by all of them if it has to do with no record, and every change of a
tree keeps it, granted or refused. -/
theorem Enduring.of_changes {known : Watched → Path → Stat → Prop}
    {kept : Watched → Path → Bool → Record → Prop} {I : Assertion Watched}
    (hcalm : ∀ w₀, Calm (known w₀) (kept w₀) fun c w => w = w₀ ∧ I c w₀)
    (hedit : ∀ {p c c' w}, Edited p c c' → I c w → I c' w)
    (hgranted : ∀ {c w change t}, change.apply w.tree = .ok t → I c w → I c (w.granted change t))
    (hrefused : ∀ {c w} change e, I c w → I c (w.refused change e)) : Enduring known kept I := by
  have hattempt : ∀ change c w, I c w → I c ((Watched.attempt change).run w).2 := by
    intro change c w hi
    rcases Watched.run_attempt_cases change w with ⟨t, ht, hrun⟩ | ⟨e, hrun⟩
    · rw [hrun]
      exact hgranted ht hi
    · rw [hrun]
      exact hrefused change e hi
  have hsave : ∀ p, Keeps I (Cache.save p : Work (StateM Watched) Unit) :=
    Cache.keeps_save_of_changes (fun p => hattempt (.makeDir p))
      (fun p content => hattempt (.write p content))
      fun source target => hattempt (.rename source target)
  refine ⟨hcalm, fun {p _} hchange => ?_, fun kind p => ?_⟩
  · exact Keeps.bind (Triple.modify fun c _ hi => hedit (hchange c) hi) fun _ => hsave p
  · cases kind with
    | dir => exact Keeps.call (hattempt (.makeDir p))
    | file => exact Keeps.call (hattempt (.write p .empty))

theorem Record.proper_userData (key value : String) : Proper fun r =>
    if value.isEmpty then r.removeUser key else r.setUser key value := by
  constructor
  · intro r
    split
    · unfold removeUser
      split <;> rfl
    · rfl
  · intro r hproto
    split
    · rw [proto_removeUser]
      exact hproto
    · exact hproto
  · intro r hnodup
    split
    · unfold removeUser
      split <;> exact hnodup
    · exact hnodup

/-! ## 1. Parts of requests -/

/-- The change that makes an empty object. -/
def ObjectKind.change (kind : ObjectKind) (p : Path) : Change :=
  match kind with
  | .dir => .makeDir p
  | .file => .write p .empty

theorem ObjectKind.target_change (kind : ObjectKind) (p : Path) : (kind.change p).target = p := by
  cases kind <;> rfl

/-- Making an empty object is one change, granted or refused. -/
theorem triple_makeEmpty_of_change {P Q E : Assertion Watched} {kind : ObjectKind} {p : Path}
    (hgranted : ∀ {c w t}, P c w → (kind.change p).apply w.tree = .ok t →
      Q c (w.granted (kind.change p) t))
    (hrefused : ∀ {c w} e, P c w → E c (w.refused (kind.change p) e)) :
    Triple P (Session.makeEmpty kind p : Work (StateM Watched) Unit) (fun _ => Q) (fun _ => E) := by
  have hattempt : ∀ c w, P c w → Outcome (fun _ => Q) (fun _ => E)
      ((Watched.attempt (kind.change p)).run w).1 c
        ((Watched.attempt (kind.change p)).run w).2 := by
    intro c w h
    rcases Watched.run_attempt_cases (kind.change p) w with ⟨t, happly, hrun⟩ | ⟨e, hrun⟩
    · rw [hrun]
      exact hgranted h happly
    · rw [hrun]
      exact hrefused e h
  cases kind with
  | dir => exact Triple.call hattempt
  | file => exact Triple.call hattempt

/-- Making an object keeps what making the empty object leads to, if choosing a prototype does. -/
theorem Steady.createObject {I P E : Assertion Watched} (h : Steady I) {kind : ObjectKind} {p : Path}
    {proto : Option String}
    (hchoose : ∀ place, Keeps I (Session.chooseProto place proto : Work (StateM Watched) _))
    (hmake : Triple P (Session.makeEmpty kind p) (fun _ => I) (fun _ => E))
    (hfail : ∀ c w, I c w → E c w) :
    Triple P (Session.createObject kind proto p) (fun _ => I) (fun _ => E) := by
  refine Triple.bind hmake fun _ => Triple.imp (Keeps.bind (h.meetPath p) fun place =>
    Keeps.bind (hchoose place) fun found => ?_) (fun _ _ hi => hi) (fun _ _ _ hi => hi) fun _ => hfail
  cases found with
  | some path => exact h.setProto place path
  | none => exact Keeps.pure _

namespace Sustained

variable {known : Watched → Path → Stat → Prop} {kept : Watched → Path → Bool → Record → Prop}
variable {I P : Assertion Watched}

theorem reading (h : Sustained known kept I) {α ε : Type}
    {w : ExceptT ε (StateT Cache (StateM Watched)) α}
    (hw : ∀ {known kept J}, @Calm Watched _ known kept J → Keeps J w) : Keeps I w :=
  Keeps.of_calm h.calm hw

theorem steady (h : Sustained known kept I) : Steady I where
  meet p := h.reading fun hcalm => hcalm.keeps_meet p
  edit p _ hchange := h.editSave fun c => edited_editRecord c p hchange.mark hchange.proto

theorem setUser (h : Sustained known kept I) (target key value : String) :
    Keeps I (Session.setUser target key value) :=
  Keeps.adapt <| Keeps.bind (h.reading fun hcalm => hcalm.keeps_find target) fun place =>
    h.steady.edit place _ (Record.proper_userData key value)

theorem linkProto (h : Sustained known kept I) (target name : String) :
    Keeps I (Session.linkProto target name) :=
  Keeps.adapt <| Keeps.bind (h.reading fun hcalm => hcalm.keeps_find target) fun place =>
    Keeps.bind (h.reading fun hcalm => hcalm.keeps_findProto place.up name) fun proto =>
      Keeps.bind (h.steady.setProto place proto) fun _ => Keeps.pure _

theorem setContract (h : Sustained known kept I) (pattern : String) (p : Path) :
    Keeps I (Session.setContract pattern p) :=
  Keeps.bind (h.steady.meetPath p) fun place =>
    h.steady.edit place _ ⟨fun _ => rfl, fun _ hproto => hproto, fun _ hnodup => hnodup⟩

theorem createObject (h : Sustained known kept I) {kind : ObjectKind} {p : Path}
    (hmake : Triple P (Session.makeEmpty kind p) (fun _ => I) (fun _ => I)) (proto : Option String) :
    Triple P (Session.createObject kind proto p) (fun _ => I) (fun _ => I) :=
  h.steady.createObject (fun place => h.reading fun hcalm => hcalm.keeps_chooseProto place proto)
    hmake fun _ _ hi => hi

theorem createShow (h : Sustained known kept I) {p : Path}
    (hmake : Triple P (Session.makeEmpty .dir p) (fun _ => I) (fun _ => I)) :
    Triple P (Session.createShow p) (fun _ => I) (fun _ => I) := by
  refine Triple.bind hmake fun _ => ?_
  refine Triple.bind (h.steady.meetPath p) fun place => ?_
  exact h.editSave fun c => edited_markShowRoot c place

end Sustained

/-! ## 2. Batches -/

section Batches

variable {I : Assertion Watched}

theorem leads_record {P : Assertion Watched} {act : Path → Work (StateM Watched) Unit} {p : Path}
    (hact : Triple P (act p) (fun _ => I) (fun _ => I)) (b : Batch) :
    Leads P (Session.record act p b) fun _ => I := by
  refine Leads.bind hact.leads fun r => ?_
  cases r with
  | ok _ => exact Leads.pure fun _ _ hi => hi
  | error e => exact Leads.pure fun _ _ hi => hi

/-- What is done for a path that must be new is done where there is nothing, and what came of it
is taken down. -/
theorem leads_recordNew_of {P : Assertion Watched} {J : Batch → Assertion Watched}
    {act : Path → Work (StateM Watched) Unit} {p : Path} {b : Batch}
    (hskipped : ∀ c w, P c w → w.tree.present p = true → J (b.addSkipped p) c w)
    (hact : Triple (fun c w => P c w ∧ w.tree.present p = false) (act p)
      (fun _ => J (b.addDone p)) (fun e => J (b.addFailed p (.failure e)))) :
    Leads P (Session.recordNew act p b) J := by
  have hask : Leads P (StateT.lift (FileSystem.present p) : StateT Cache (StateM Watched) Bool)
      fun present c w => P c w ∧ w.tree.present p = present := Leads.lift fun _ _ hp => ⟨hp, rfl⟩
  refine Leads.bind hask fun present => ?_
  cases present with
  | true => exact Leads.pure fun c w h => hskipped c w h.1 h.2
  | false =>
    refine Leads.bind hact fun r => ?_
    cases r with
    | ok _ => exact Leads.pure fun _ _ hj => hj
    | error e => exact Leads.pure fun _ _ hj => hj

theorem leads_recordNew {act : Path → Work (StateM Watched) Unit} {p : Path}
    (hact : Triple (fun c w => I c w ∧ w.tree.present p = false) (act p) (fun _ => I) (fun _ => I))
    (b : Batch) : Leads I (Session.recordNew act p b) fun _ => I :=
  leads_recordNew_of (fun _ _ hi _ => hi) hact

/-- What is kept for every path is kept for all of them. -/
theorem keeps_forEach {act : Path → Batch → StateT Cache (StateM Watched) Batch}
    {paths : List Path} (hact : ∀ p ∈ paths, ∀ b, Leads I (act p b) fun _ => I) :
    Keeps I (Session.forEach act paths) :=
  fun c w hi => Leads.foldlM (J := fun _ => I) Batch.empty hact c w hi

end Batches

/-! ## 3. Requests and runs -/

/-- The expression and the kind of the objects that a request makes, if it makes any. -/
def Request.making? : Request → Option (String × ObjectKind)
  | .createObjects source kind _ => some (source, kind)
  | .createShows source => some (source, .dir)
  | _ => none

/-- A request keeps what reading and saving keep, if making objects for its paths keeps it. -/
theorem Sustained.request {known : Watched → Path → Stat → Prop}
    {kept : Watched → Path → Bool → Record → Prop} {I P : Assertion Watched}
    {R : ObjectKind → Path → Prop} (hs : Sustained known kept I) (hP : ∀ c w, P c w → I c w)
    (request : Request)
    (hgenerate : ∀ source kind, request.making? = some (source, kind) →
      Triple P (Session.generate source : Action (StateM Watched) (List Path))
        (fun paths c w => I c w ∧ ∀ p ∈ paths, R kind p) (fun _ => I))
    (hmake : ∀ kind p, R kind p → Triple (fun c w => I c w ∧ w.tree.present p = false)
      (Session.makeEmpty kind p) (fun _ => I) (fun _ => I)) :
    Leads P request.run fun _ => I := by
  have hkeeps : ∀ {α : Type} {work : Action (StateM Watched) α}, Keeps I work →
      Leads P (do let _ ← work.run) fun _ => I :=
    fun hwork => Leads.imp (Keeps.done hwork) hP fun _ _ _ hi => hi
  cases request with
  | eval source => exact hkeeps (hs.reading fun hcalm => hcalm.keeps_sessionEval source)
  | setUser target key value => exact hkeeps (hs.setUser target key value)
  | showRoot target => exact hkeeps (hs.reading fun hcalm => hcalm.keeps_showRoot target)
  | protoOf target => exact hkeeps (hs.reading fun hcalm => hcalm.keeps_protoOf target)
  | listProtos target =>
    exact hkeeps (hs.reading fun hcalm => hcalm.keeps_sessionListProtos target)
  | linkProto target name => exact hkeeps (hs.linkProto target name)
  | createObjects source kind proto =>
    refine Leads.bind (Triple.leads (Triple.bind (hgenerate source kind rfl) fun paths =>
      Triple.of_fact fun hpaths => ?_)) fun _ => Leads.pure fun _ _ hi => hi
    exact keeps_forEach fun p hp _ =>
      leads_recordNew (hs.createObject (hmake kind p (hpaths p hp)) proto) _
  | createShows source =>
    have hsome : Triple P (Session.generateSome source : Action (StateM Watched) (List Path))
        (fun paths c w => I c w ∧ ∀ p ∈ paths, R .dir p) (fun _ => I) := by
      refine Triple.bind (hgenerate source .dir rfl) fun paths => ?_
      split
      · exact Triple.throw fun _ _ hi => hi.1
      · exact Triple.pure fun _ _ hi => hi
    refine Leads.bind (Triple.leads (Triple.bind hsome fun paths =>
      Triple.of_fact fun hpaths => ?_)) fun _ => Leads.pure fun _ _ hi => hi
    exact keeps_forEach fun p hp _ => leads_recordNew (hs.createShow (hmake .dir p (hpaths p hp))) _
  | setContracts source pattern =>
    have hpaths := hs.reading fun hcalm => hcalm.keeps_generateSome source
    refine hkeeps (Keeps.bind hpaths fun paths => keeps_forEach fun p _ => ?_)
    exact leads_record (hs.setContract pattern p)

namespace Enduring

variable {known : Watched → Path → Stat → Prop} {kept : Watched → Path → Bool → Record → Prop}
variable {I : Assertion Watched}

theorem sustained (h : Enduring known kept I) : Sustained known kept I :=
  ⟨h.calm, h.editSave⟩

/-- Every request keeps it. -/
theorem request (h : Enduring known kept I) (request : Request) :
    Leads I request.run fun _ => I := by
  refine h.sustained.request (R := fun _ _ => True) (fun _ _ hi => hi) request
    (fun source _ _ => ?_) fun kind p _ => (h.makeEmpty kind p).pre fun _ _ hi => hi.1
  have hkeeps : Keeps I (Session.generate source : Action (StateM Watched) (List Path)) :=
    h.sustained.reading fun hcalm => hcalm.keeps_sessionGenerate source
  exact Triple.post hkeeps fun _ _ _ hi => ⟨hi, fun _ _ => trivial⟩

end Enduring

/-- What every request keeps is kept by a run of them. -/
theorem Request.leads_runAll {I : Assertion Watched} : ∀ {requests : List Request},
    (∀ request ∈ requests, Leads I request.run fun _ => I) → Leads I (runAll requests) fun _ => I
  | [], _ => Leads.pure fun _ _ hi => hi
  | _ :: _, h =>
    have ⟨hfirst, hrest⟩ := List.forall_mem_cons.1 h
    Leads.bind hfirst fun _ => leads_runAll hrest

theorem Request.watch_of_leads {I : Assertion Watched} {requests : List Request}
    (h : ∀ request ∈ requests, Leads I request.run fun _ => I) {start : Cache} {w : Watched}
    {out : Cache × Watched} (hi : I start w) (hout : watch requests start w = out) :
    I out.1 out.2 :=
  hout ▸ leads_runAll h start w hi

/-- Any run of requests keeps an assertion that endures. -/
theorem Enduring.watch {known : Watched → Path → Stat → Prop}
    {kept : Watched → Path → Bool → Record → Prop} {I : Assertion Watched}
    (h : Enduring known kept I) {requests : List Request} {start : Cache} {w : Watched}
    {out : Cache × Watched} (hi : I start w) (hout : Request.watch requests start w = out) :
    I out.1 out.2 :=
  Request.watch_of_leads (fun request _ => h.request request) hi hout

end ShowTree
