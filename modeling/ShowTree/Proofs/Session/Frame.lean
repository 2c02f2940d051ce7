/-
ShowTree.Proofs.Session.Frame — what a session leaves alone.

All that is written to save a record is written in a directory for metadata
(`inMeta_key_of_below`), and objects are made only where there is nothing. So outside of these
directories everything that is there stays as it is, whatever is asked for and refused, and
what is new there is an empty object that was asked for (`request_spares`, `kept_of_watch`).
Nor is anything moved away from outside of them (`enduring_moved`).
-/
import ShowTree.Proofs.Cache.Widening
import ShowTree.Proofs.Selector.Shape
import ShowTree.Proofs.Session.Requests

namespace ShowTree

open ShowTree.Text

/-! ## 1. Keys in directories for metadata -/

/-- A key with the name of a directory for metadata between its slashes. -/
def InMeta (key : String) : Prop :=
  Layout.metaName.chars ∈ splitOn '/' key.toList

instance (key : String) : Decidable (InMeta key) :=
  inferInstanceAs (Decidable (_ ∈ _))

/-- Slashes at the end of a text make empty pieces only. -/
theorem mem_splitOn_of_append_slashes {cs piece : List Char} (hne : piece ≠ []) (n : Nat)
    (h : piece ∈ splitOn '/' (cs ++ List.replicate n '/')) : piece ∈ splitOn '/' cs := by
  cases n with
  | zero => simpa using h
  | succ n =>
    rw [List.replicate_succ, splitOn_append_sep, List.mem_append] at h
    refine h.resolve_right fun hslashes => hne ?_
    refine List.eq_nil_iff_forall_not_mem.2 fun c hc => ?_
    obtain rfl := List.eq_of_mem_replicate (mem_of_mem_splitOn hslashes hc)
    exact not_mem_of_mem_splitOn '/' _ _ hslashes hc

/-- A path keeps the name of a directory for metadata in its key. -/
theorem inMeta_key {p : Path} (front back : List Char)
    (h : p.text.toList = front ++ '/' :: (Layout.metaName.chars ++ back))
    (hback : back = [] ∨ ∃ rest, back = '/' :: rest) : InMeta p.key := by
  have hslashed : ∃ front back, p.text.toList.map (fun c => if c = '\\' then '/' else c) =
      front ++ '/' :: (Layout.metaName.chars ++ back) ∧ (back = [] ∨ ∃ rest, back = '/' :: rest) := by
    refine ⟨front.map _, back.map _, by rw [h, List.map_append]; rfl, ?_⟩
    rcases hback with rfl | ⟨rest, rfl⟩
    · exact .inl rfl
    · exact .inr ⟨_, rfl⟩
  obtain ⟨front, back, htext, hback⟩ := hslashed
  have hname : '/' ∉ Layout.metaName.chars := Layout.metaName.slash_not_mem_chars
  have hmem : Layout.metaName.chars ∈
      splitOn '/' (front ++ '/' :: (Layout.metaName.chars ++ back)) := by
    rw [splitOn_append_sep, List.mem_append]
    rcases hback with rfl | ⟨rest, rfl⟩
    · rw [List.append_nil, splitOn_eq_singleton hname]
      exact .inr List.mem_cons_self
    · rw [splitOn_append_cons rest hname]
      exact .inr List.mem_cons_self
  obtain ⟨n, hn⟩ := Path.dropSlashes_eq (front ++ '/' :: (Layout.metaName.chars ++ back)).reverse
  have hkey : front ++ '/' :: (Layout.metaName.chars ++ back) =
      p.key.toList ++ List.replicate n '/' := by
    have hrev := congrArg List.reverse hn
    rw [List.reverse_reverse, List.reverse_append, List.reverse_replicate] at hrev
    rw [Path.key, htext, String.toList_ofList]
    exact hrev
  rw [hkey] at hmem
  exact mem_splitOn_of_append_slashes Layout.metaName.chars_ne_nil n hmem

theorem inMeta_key_metaDir (dir : Place) : InMeta dir.metaDir.path.key :=
  inMeta_key dir.stem [] (Place.toList_path_entry dir Layout.metaName) (.inl rfl)

theorem inMeta_key_of_below (dir : Place) (name : Name) :
    InMeta (Place.entry dir.metaDir name).path.key := by
  refine inMeta_key dir.stem ('/' :: name.chars) ?_ (.inr ⟨_, rfl⟩)
  rw [Place.toList_path_entry, Place.metaDir, Place.stem]
  simp

/-- A place with such a key has the name of a directory for metadata. -/
theorem Place.metaName_mem_of_inMeta {p : Place} (hp : p.Plain) (h : InMeta p.path.key) :
    Layout.metaName ∈ p.names := by
  have hpieces : Layout.metaName.chars ∈ p.path.pieces := by
    rw [InMeta, key_path hp] at h
    exact h
  rw [pieces_path] at hpieces
  rcases List.mem_cons.1 hpieces with hnil | hpieces
  · exact absurd hnil Layout.metaName.chars_ne_nil
  · split at hpieces
    · exact absurd (List.mem_singleton.1 hpieces) Layout.metaName.chars_ne_nil
    · obtain ⟨n, hn, hchars⟩ := List.mem_map.1 hpieces
      exact Name.chars_injective hchars ▸ hn

/-! ## 2. What is left alone -/

/-- Outside of the directories for metadata all that was there is there, and what is new was to
be made. -/
structure Spares (t : Tree) (made : String → Entry → Prop) (t' : Tree) : Prop where
  kept : ∀ {key e}, ¬ InMeta key → t.get? key = some e → t'.get? key = some e
  new : ∀ {key e}, ¬ InMeta key → t.get? key = none → t'.get? key = some e → made key e

namespace Spares

variable {t t' t'' : Tree} {made : String → Entry → Prop}

theorem refl (t : Tree) : Spares t made t :=
  ⟨fun _ h => h, fun _ hnone h => by rw [hnone] at h; cases h⟩

/-- Changes in directories for metadata make no difference. -/
theorem of_same (h : Spares t made t') (hsame : ∀ key, ¬ InMeta key → t''.get? key = t'.get? key) :
    Spares t made t'' where
  kept hkey he := (hsame _ hkey).trans (h.kept hkey he)
  new hkey hnone he := h.new hkey hnone ((hsame _ hkey).symm.trans he)

/-- Nor does something that is put where there was nothing, if it was to be made. -/
theorem put (h : Spares t made t') {key : String} {e : Entry} (habsent : t'.get? key = none)
    (hmade : made key e) (hput : ∀ k, t''.get? k = if key = k then some e else t'.get? k) :
    Spares t made t'' := by
  constructor
  · intro k e' hk he
    have hthere := h.kept hk he
    rw [hput, if_neg]
    · exact hthere
    · rintro rfl
      rw [habsent] at hthere
      cases hthere
  · intro k e' hk hnone he
    rw [hput] at he
    split at he
    · rename_i hkey
      exact hkey ▸ Option.some.inj he ▸ hmade
    · exact h.new hk hnone he

end Spares

/-- Of a session: what is left alone in its tree. -/
def Sparing (t : Tree) (made : String → Entry → Prop) : Assertion Watched :=
  fun c w => c.layout = .default ∧ Spares t made w.tree

theorem SaveCourse.spares {t : Tree} {made : String → Entry → Prop} {w w' : Watched} {p : Place}
    {isDir : Bool} {content : ByteArray} {r : Except Failure Unit} (h : Spares t made w.tree)
    (course : SaveCourse w (p.recordHolder isDir).metaDir.path (p.draftPlace isDir).path
      (p.recordPlace isDir).path content r w') : Spares t made w'.tree := by
  refine h.of_same fun key hkey => ?_
  have hne : ∀ {k}, InMeta k → k ≠ key := fun hk he => hkey (he ▸ hk)
  rw [course.get?_eq (hne (inMeta_key_metaDir _)) (hne (inMeta_key_of_below _ _)), if_neg]
  exact fun hfile => hne (inMeta_key_of_below _ _) hfile.2

/-- Reading and changing records leaves all of it alone. -/
theorem sustained_sparing (t : Tree) (made : String → Entry → Prop) :
    Sustained (fun w p st => w.tree.stat p = .ok st)
      (fun w p isDir r => w.tree.recordOf .default p isDir = .ok r) (Sparing t made) :=
  Sustained.of_courses fun course h => course.spares h

/-- The empty object of a kind. -/
def ObjectKind.entry : ObjectKind → Entry
  | .dir => .dir
  | .file => .file .empty

/-- Making an empty object puts it in, and changes nothing else. -/
theorem ObjectKind.get?_of_change {kind : ObjectKind} {p : Path} {t t' : Tree}
    (h : (kind.change p).apply t = .ok t') (key : String) :
    t'.get? key = if p.key = key then some kind.entry else t.get? key := by
  cases kind with
  | dir =>
    rw [change, Change.apply] at h
    exact (Tree.get?_makeDir h).2 key
  | file =>
    rw [change, Change.apply] at h
    exact (Tree.get?_write h).2 key

/-- An empty object that was to be made may be made where there is nothing. -/
theorem triple_makeEmpty {t : Tree} {made : String → Entry → Prop} {kind : ObjectKind} {p : Path}
    (hmade : made p.key kind.entry) :
    Triple (fun c w => Sparing t made c w ∧ w.tree.present p = false) (Session.makeEmpty kind p)
      (fun _ => Sparing t made) (fun _ => Sparing t made) := by
  refine triple_makeEmpty_of_change (fun {c w t'} h happly => ?_) fun e h => h.1
  exact ⟨h.1.1, h.1.2.put (Tree.get?_of_absent h.2) hmade (ObjectKind.get?_of_change happly)⟩

/-! ## 3. Requests -/

/-- Whether an expression names the path with this key from the working directory. -/
def Names (c : Cache) (w : Watched) (source key : String) : Prop :=
  ∃ paths c', ((Session.generate source : Action (StateM Watched) (List Path)).run.run c).run w =
    ((.ok paths, c'), w) ∧ key ∈ paths.map Path.key

namespace Request

/-- The entries that a request is to make: empty objects at the paths that its expression
names. -/
def Makes (c : Cache) (w : Watched) : Request → String → Entry → Prop
  | .createObjects source kind _, key, e => Names c w source key ∧ e = kind.entry
  | .createShows source, key, e => Names c w source key ∧ e = .dir
  | _, _, _ => False

/-- Whether a request only asks. -/
def isQuestion : Request → Bool
  | .eval _ | .showRoot _ | .protoOf _ | .listProtos _ => true
  | _ => false

end Request

section Requests

variable {t : Tree} {made : String → Entry → Prop} {c₀ : Cache} {w₀ : Watched}

/-- The paths that are generated are those that the expression names. -/
theorem triple_generate (h : Sparing t made c₀ w₀) (source : String) :
    Triple (fun c w => c = c₀ ∧ w = w₀)
      (Session.generate source : Action (StateM Watched) (List Path))
      (fun paths c w => Sparing t made c w ∧ ∀ p ∈ paths, Names c₀ w₀ source p.key)
      (fun _ => Sparing t made) := by
  have hframe : Keeps (fun c w => w = w₀ ∧ Sparing t made c w₀)
      (Session.generate source : Action (StateM Watched) (List Path)) :=
    ((sustained_sparing t made).calm w₀).keeps_sessionGenerate source
  refine (hframe.and (Triple.result c₀ w₀)).imp ?_ ?_ ?_
  · rintro c w ⟨rfl, rfl⟩
    exact ⟨⟨rfl, h⟩, rfl, rfl⟩
  · rintro paths c w ⟨⟨rfl, hsparing⟩, hrun⟩
    exact ⟨hsparing, fun p hp => ⟨paths, c, hrun, List.mem_map_of_mem hp⟩⟩
  · rintro e c w ⟨⟨rfl, hsparing⟩, -⟩
    exact hsparing

/-- A request leaves alone what was left alone before, if all that it makes was to be made. -/
theorem leads_request (request : Request) (h : Sparing t made c₀ w₀)
    (hmade : ∀ key e, request.Makes c₀ w₀ key e → made key e) :
    Leads (fun c w => c = c₀ ∧ w = w₀) request.run fun _ => Sparing t made := by
  refine (sustained_sparing t made).request (R := fun kind p => made p.key kind.entry) ?_ request
    (fun source kind hmaking => ?_) fun kind p hp => triple_makeEmpty hp
  · rintro c w ⟨rfl, rfl⟩
    exact h
  · refine (triple_generate h source).post fun paths c w ⟨hsparing, hnamed⟩ =>
      ⟨hsparing, fun p hp => hmade _ _ ?_⟩
    cases request with
    | createObjects _ _ _ =>
      obtain ⟨rfl, rfl⟩ := Prod.mk.inj (Option.some.inj hmaking)
      exact ⟨hnamed p hp, rfl⟩
    | createShows _ =>
      obtain ⟨rfl, rfl⟩ := Prod.mk.inj (Option.some.inj hmaking)
      exact ⟨hnamed p hp, rfl⟩
    | _ => cases hmaking

/-- A question changes nothing at all. -/
theorem leads_question {request : Request} (h : request.isQuestion = true) (layout : Layout) :
    Leads (fun c w => w = w₀ ∧ c.layout = layout) request.run fun _ c w =>
      w = w₀ ∧ c.layout = layout := by
  have hcalm : Calm (fun p st => w₀.tree.stat p = .ok st)
      (fun p isDir r => w₀.tree.recordOf layout p isDir = .ok r)
      (fun c w => w = w₀ ∧ c.layout = layout) :=
    truthful_watched.calm (fun _ h => h) fun _ _ _ _ h _ _ _ _ => h
  cases request with
  | eval source => exact Keeps.done (hcalm.keeps_sessionEval source)
  | showRoot target => exact Keeps.done (hcalm.keeps_showRoot target)
  | protoOf target => exact Keeps.done (hcalm.keeps_protoOf target)
  | listProtos target => exact Keeps.done (hcalm.keeps_sessionListProtos target)
  | _ => cases h

/-- Any run of requests leaves alone what is outside of the directories for metadata. -/
theorem kept_of_watch {requests : List Request} {start : Cache} {w : Watched}
    {out : Cache × Watched} (hlayout : start.layout = .default)
    (hout : Request.watch requests start w = out) {key : String} {e : Entry} (hkey : ¬ InMeta key)
    (he : w.tree.get? key = some e) : out.2.tree.get? key = some e := by
  have hstep : ∀ request : Request, Leads (Sparing w.tree fun _ _ => True) request.run fun _ =>
      Sparing w.tree fun _ _ => True := fun request c₁ w₁ h =>
    leads_request request h (fun _ _ _ => trivial) c₁ w₁ ⟨rfl, rfl⟩
  exact (Request.watch_of_leads (fun request _ => hstep request) ⟨hlayout, .refl _⟩ hout).2.kept hkey
    he

/-- Whatever is asked for, and whether it succeeds or fails and whatever is refused: outside of
the directories for metadata all that was there is there, as it was, and what is new is an
empty object of the kind that was to be made, at a path that the expression names. A question
changes nothing at all. -/
theorem request_spares {c : Cache} (hlayout : c.layout = .default) (request : Request)
    (w : Watched) :
    Spares w.tree (request.Makes c w)
        (((request.run : StateT Cache (StateM Watched) Unit).run c).run w).2.tree ∧
      (request.isQuestion = true →
        (((request.run : StateT Cache (StateM Watched) Unit).run c).run w).2.tree = w.tree) := by
  constructor
  · have hstart : Sparing w.tree (request.Makes c w) c w := ⟨hlayout, .refl _⟩
    exact (leads_request request hstart (fun _ _ h => h) c w ⟨rfl, rfl⟩).2
  · intro hquestion
    exact congrArg Watched.tree (leads_question hquestion c.layout c w ⟨rfl, rfl⟩).1

end Requests

/-! ## 4. What is moved away -/

/-- Of a session: nothing has been moved away but from directories for metadata. -/
def MovedInMeta : Assertion Watched :=
  fun c w => c.layout = .default ∧ ∀ p ∈ movedAway w.log, InMeta p.key

theorem sustained_moved : Sustained (fun w p st => w.tree.stat p = .ok st)
    (fun w p isDir r => w.tree.recordOf .default p isDir = .ok r) MovedInMeta := by
  refine Sustained.of_courses fun course h => course.keeps
    (K := fun w => ∀ p ∈ movedAway w.log, InMeta p.key) (fun change hchange _ hw => ?_)
    (fun change e hw => ?_) h
  · simp only [List.mem_cons, List.not_mem_nil, or_false] at hchange
    rcases hchange with rfl | rfl | rfl
    · exact hw
    · exact hw
    · exact List.forall_mem_cons.2 ⟨inMeta_key_of_below _ _, hw⟩
  · cases change <;> exact hw

theorem enduring_moved : Enduring (fun w p st => w.tree.stat p = .ok st)
    (fun w p isDir r => w.tree.recordOf .default p isDir = .ok r) MovedInMeta where
  calm := sustained_moved.calm
  editSave := sustained_moved.editSave
  makeEmpty kind p := by
    refine triple_makeEmpty_of_change (fun h _ => ?_) fun e h => ?_
    · cases kind <;> exact h
    · cases kind <;> exact h

/-- A tree with a file that is not empty, and another one elsewhere. -/
def fileYElsewhereZ : Watched :=
  .ofTree (.ofFiles [(⟨"/a/y"⟩, "text".toUTF8), (⟨"/b/z"⟩, .empty)]) fun _ => none

/-- For instance making files with the name of the first one in all directories: it is left
alone, and one file is new. -/
theorem request_spares_made :
    ∃ out, ((Request.run (.createObjects "/*/y" .file none) : StateT Cache (StateM Watched) Unit).run
        ⟨.default, .root, []⟩).run fileYElsewhereZ = out ∧
      out.2.tree.read ⟨"/a/y"⟩ = fileYElsewhereZ.tree.read ⟨"/a/y"⟩ ∧
      out.2.tree.present ⟨"/b/y"⟩ = true ∧
      ∀ key e, ¬ InMeta key → fileYElsewhereZ.tree.get? key = none → out.2.tree.get? key = some e →
        key = "/b/y" ∧ e = .file .empty := by
  have hspares := (request_spares (c := ⟨.default, .root, []⟩) rfl (.createObjects "/*/y" .file none)
    fileYElsewhereZ).1
  have hpaths : (((Session.generate "/*/y" : Action (StateM Watched) (List Path)).run.run
      ⟨.default, .root, []⟩).run fileYElsewhereZ).1.1.toOption = some [⟨"/a/y"⟩, ⟨"/b/y"⟩] := by
    decide +kernel
  have hpresent : (fileYElsewhereZ.tree.get? "/a/y").isSome := by decide +kernel
  obtain ⟨e, he⟩ := Option.isSome_iff_exists.1 hpresent
  refine ⟨_, rfl, Tree.read_congr ?_, by decide +kernel, fun key e' hkey hnone hnew => ?_⟩
  · exact (hspares.kept (by decide) he).trans he.symm
  · obtain ⟨⟨paths, c', hrun, hnamed⟩, rfl⟩ := hspares.new hkey hnone hnew
    rw [hrun] at hpaths
    obtain rfl : paths = [⟨"/a/y"⟩, ⟨"/b/y"⟩] := Option.some.inj hpaths
    have hkeys : key = "/a/y" ∨ key = "/b/y" := by
      have hlist : [⟨"/a/y"⟩, ⟨"/b/y"⟩].map Path.key = ["/a/y", "/b/y"] := by decide
      simpa [hlist] using hnamed
    rcases hkeys with rfl | rfl
    · rw [hnone] at hpresent
      cases hpresent
    · exact ⟨rfl, rfl⟩

end ShowTree
