/-
ShowTree.Proofs.Selector.Target — texts that name one object.

A text without wildcards can be read as a target, which is walked from a place, and as a
selector, whose segments lead on one after the other (`Segment.lead`). Both readings lead to
the same place, from the root of the show, from that of the file system, or from the working
directory (`Cache.resolve_eq_lead`). So an expression without wildcards names the one path
that it leads to as a target, and fails where the target does (`generate_eq_resolveTarget`).
-/
import ShowTree.Proofs.Path.Walk
import ShowTree.Proofs.Selector.Named
import ShowTree.Session.Request

namespace ShowTree

open ShowTree.Text

/-! ## 1. Segments that lead to one place -/

namespace Segment

/-- A segment that leads to one place: a name is that of an entry, and it is no wildcard. -/
def Single : Segment → Prop
  | .name text => IsName text
  | .wildcard _ => False
  | _ => True

/-- The place that a segment leads to; none where a show is meant but there is none. -/
def onward (showRoot : Option Place) (p : Place) : Segment → Option Place
  | .showRoot => showRoot
  | .fileRoot => some .root
  | .up levels => some (p.upBy levels)
  | .name text => p.child? text
  | .wildcard _ => none

/-- The place that a chain of segments leads to. -/
def lead (showRoot : Option Place) : List Segment → Place → Option Place
  | [], p => some p
  | segment :: rest, p => (segment.onward showRoot p).bind (lead showRoot rest)

/-- Such a chain stands for the place that it leads to, whatever the tree holds. -/
theorem named_eq_lead {t : Tree} {hidden : String} {showRoot : Option Place} :
    ∀ {segments : List Segment} {p : Place}, (∀ seg ∈ segments, seg.Single) →
      named t hidden showRoot segments p = (lead showRoot segments p).toList
  | [], _, _ => rfl
  | segment :: rest, p, h => by
    obtain ⟨hfirst, hrest⟩ := List.forall_mem_cons.1 h
    have ih : ∀ q, named t hidden showRoot rest q = (lead showRoot rest q).toList :=
      fun _ => named_eq_lead hrest
    cases segment with
    | fileRoot => exact ih .root
    | showRoot =>
      cases showRoot with
      | none => rfl
      | some place => simpa [named, lead, onward] using ih place
    | up levels => exact ih (p.upBy levels)
    | name text =>
      have hname : IsName text := hfirst
      simpa [named_name hname, lead, onward, Place.child?_of_isName hname] using
        ih (.entry p ⟨text, hname⟩)
    | wildcard pattern => exact hfirst.elim

section Run

variable {σ : Type} [FileSystem (StateM σ)]

/-- Putting the path of such a chain together asks the file system nothing. -/
theorem run_candidates_of_single {anchor : Place} {c : Cache} {s : σ} :
    ∀ {segments : List Segment} {p : Place}, (∀ seg ∈ segments, seg.Single) →
      ((candidates anchor segments p.path : Work (StateM σ) _).run.run c).run s =
        match lead (c.showAt anchor) segments p with
        | some q => ((.ok [q.path], c), s)
        | none => ((.error (.unresolvedShow anchor.path), c), s)
  | [], _, _ => rfl
  | segment :: rest, p, h => by
    obtain ⟨hfirst, hrest⟩ := List.forall_mem_cons.1 h
    have ih : ∀ q : Place, ((candidates anchor rest q.path : Work (StateM σ) _).run.run c).run s =
        match lead (c.showAt anchor) rest q with
        | some q => ((.ok [q.path], c), s)
        | none => ((.error (.unresolvedShow anchor.path), c), s) :=
      fun _ => run_candidates_of_single hrest
    cases segment with
    | fileRoot => exact ih .root
    | showRoot =>
      rw [candidates, run_bind, run_get, lead, onward]
      dsimp only
      generalize c.showAt anchor = showRoot at ih
      cases showRoot with
      | none => rfl
      | some place => exact ih place
    | up levels =>
      rw [candidates, Path.upBy_path]
      exact ih (p.upBy levels)
    | name text =>
      have hname : IsName text := hfirst
      rw [lead, onward, Place.child?_of_isName hname, Option.bind_some]
      exact ih (.entry p ⟨text, hname⟩)
    | wildcard pattern => exact hfirst.elim

end Run

/-! ## 2. Pieces between slashes -/

/-- A piece says nothing, or is a single dot, two dots, or a name. -/
theorem piece_cases {piece : List Char} (h : '/' ∉ piece) :
    piece = [] ∨ piece = ['.'] ∨ piece = ['.', '.'] ∨ ∃ n : Name, piece = n.chars := by
  by_cases hne : piece = []
  · exact .inl hne
  by_cases hdot : piece = ['.']
  · exact .inr (.inl hdot)
  by_cases hdots : piece = ['.', '.']
  · exact .inr (.inr (.inl hdots))
  exact .inr (.inr (.inr ⟨⟨_, isName_of_piece hne hdot hdots h⟩, by simp [Name.chars]⟩))

theorem ofPiece_chars {n : Name} (h : '*' ∉ n.chars) : ofPiece n.chars = .name n.text := by
  have hdots : n.chars ≠ ['.', '.'] := fun e =>
    n.isName.2.2.1 (String.toList_injective (by simpa [Name.chars] using e))
  rw [ofPiece, if_neg n.chars_ne_dot, if_neg hdots, if_neg h, Name.chars, String.ofList_toList]

/-- Segments that were read from pieces lead where the pieces are walked to. -/
theorem lead_pieces {showRoot : Option Place} {pieces : List (List Char)}
    (h : ∀ piece ∈ pieces, '/' ∉ piece ∧ '*' ∉ piece) (p : Place) :
    lead showRoot ((pieces.filter (!·.isEmpty)).map ofPiece) p =
      some ((pieces.filterMap Part.ofPiece?).foldl Place.step p) := by
  induction pieces generalizing p with
  | nil => rfl
  | cons piece rest ih =>
    obtain ⟨⟨hslash, hstar⟩, hrest⟩ := List.forall_mem_cons.1 h
    rcases piece_cases hslash with rfl | rfl | rfl | ⟨n, rfl⟩
    · exact ih hrest p
    · exact ih hrest p
    · have hup : p.upBy 1 = p.up := by cases p <;> rfl
      rw [List.filter_cons_of_pos (by simp), List.map_cons, lead,
        List.filterMap_cons_some (b := .up) (by decide), List.foldl_cons]
      rw [show ofPiece ['.', '.'] = .up 1 from rfl, onward, Option.bind_some, hup]
      exact ih hrest p.up
    · rw [List.filter_cons_of_pos (by simp [n.chars_ne_nil]), List.map_cons, lead,
        ofPiece_chars hstar, onward, Place.child?_of_isName n.isName, Option.bind_some,
        List.filterMap_cons_some n.ofPiece?_chars, List.foldl_cons]
      exact ih hrest (.entry p n)

theorem slash_star_not_mem {cs : List Char} (hstar : '*' ∉ cs) :
    ∀ piece ∈ splitOn '/' cs, '/' ∉ piece ∧ '*' ∉ piece := fun piece hpiece =>
  ⟨not_mem_of_mem_splitOn '/' cs piece hpiece, fun hc => hstar (mem_of_mem_splitOn hpiece hc)⟩

theorem lead_ofPieces {showRoot : Option Place} {cs : List Char} (hstar : '*' ∉ cs) (p : Place) :
    lead showRoot (ofPieces cs) p = some (p.walk cs) :=
  lead_pieces (slash_star_not_mem hstar) p

/-- Without stars, pieces are read as idle segments, as segments that go up, and as names. -/
theorem mem_ofPieces_cases {cs : List Char} (hstar : '*' ∉ cs) {segment : Segment}
    (h : segment ∈ ofPieces cs) : segment = .up 0 ∨
      (segment = .up 1 ∧ ['.', '.'] ∈ splitOn '/' cs) ∨ ∃ n : Name, segment = .name n.text := by
  obtain ⟨piece, hpiece, rfl⟩ := List.mem_map.1 h
  obtain ⟨hsplit, hne⟩ := List.mem_filter.1 hpiece
  obtain ⟨hslash, hstar⟩ := slash_star_not_mem hstar piece hsplit
  rcases piece_cases hslash with rfl | rfl | rfl | ⟨n, rfl⟩
  · cases hne
  · exact .inl rfl
  · exact .inr (.inl ⟨rfl, hsplit⟩)
  · exact .inr (.inr ⟨n, ofPiece_chars hstar⟩)

theorem single_of_mem_ofPieces {cs : List Char} (hstar : '*' ∉ cs) :
    ∀ seg ∈ ofPieces cs, seg.Single := by
  intro seg hseg
  rcases mem_ofPieces_cases hstar hseg with rfl | ⟨rfl, -⟩ | ⟨n, rfl⟩
  · trivial
  · trivial
  · exact n.isName

/-! ## 3. Targets as selectors -/

/-- The segments of a text that is read as a target. -/
def ofTarget : List Char → List Segment
  | '/' :: '/' :: rest => .showRoot :: ofPieces rest
  | '/' :: rest => .fileRoot :: ofPieces rest
  | cs => ofPieces cs

theorem ofTarget_slash {rest : List Char} (h : rest.head? ≠ some '/') :
    ofTarget ('/' :: rest) = .fileRoot :: ofPieces rest := by
  rw [ofTarget]
  rintro tail rfl
  exact h rfl

theorem ofTarget_of_head? {cs : List Char} (h : cs.head? ≠ some '/') : ofTarget cs = ofPieces cs := by
  rw [ofTarget]
  · rintro tail rfl
    exact h rfl
  · rintro tail rfl
    exact h rfl

/-- They are a root at most, and pieces after it. -/
theorem ofTarget_cases (cs : List Char) :
    (∃ rest, cs = '/' :: '/' :: rest ∧ ofTarget cs = .showRoot :: ofPieces rest) ∨
    (∃ rest, cs = '/' :: rest ∧ rest.head? ≠ some '/' ∧
      ofTarget cs = .fileRoot :: ofPieces rest) ∨
    (cs.head? ≠ some '/' ∧ ofTarget cs = ofPieces cs) := by
  by_cases hcs : cs.head? = some '/'
  · obtain ⟨rest, rfl⟩ := List.head?_eq_some_iff.1 hcs
    by_cases hrest : rest.head? = some '/'
    · obtain ⟨tail, rfl⟩ := List.head?_eq_some_iff.1 hrest
      exact .inl ⟨tail, rfl, rfl⟩
    · exact .inr (.inl ⟨rest, rfl, hrest, ofTarget_slash hrest⟩)
  · exact .inr (.inr ⟨hcs, ofTarget_of_head? hcs⟩)

/-- What holds of roots, and of the segments that are read from the end of a text, holds of all
its segments. -/
theorem forall_mem_ofTarget {P : Segment → Prop} {cs : List Char} (hshow : P .showRoot)
    (hroot : P .fileRoot) (hpieces : ∀ rest, rest <:+ cs → ∀ seg ∈ ofPieces rest, P seg) :
    ∀ seg ∈ ofTarget cs, P seg := by
  rcases ofTarget_cases cs with ⟨rest, rfl, he⟩ | ⟨rest, rfl, -, he⟩ | ⟨-, he⟩
  · rw [he]
    exact List.forall_mem_cons.2 ⟨hshow, hpieces rest ⟨['/', '/'], rfl⟩⟩
  · rw [he]
    exact List.forall_mem_cons.2 ⟨hroot, hpieces rest ⟨['/'], rfl⟩⟩
  · rw [he]
    exact hpieces cs List.suffix_rfl

theorem single_of_mem_ofTarget {cs : List Char} (hstar : '*' ∉ cs) :
    ∀ seg ∈ ofTarget cs, seg.Single :=
  forall_mem_ofTarget trivial trivial fun _ hrest =>
    single_of_mem_ofPieces fun h => hstar (hrest.mem h)

end Segment

/-- A text that is not blank at its ends is all that is left of it when it is trimmed. -/
theorem Text.trim_eq_self {cs : List Char} (hfront : cs.head?.any isBlank = false)
    (hback : cs.getLast?.any isBlank = false) : trim cs = cs := by
  have hdrop : ∀ {ds : List Char}, ds.head?.any isBlank = false → ds.dropWhile isBlank = ds := by
    intro ds h
    cases ds with
    | nil => rfl
    | cons d ds => exact List.dropWhile_cons_of_neg (by simpa using h)
  rw [trim, hdrop hfront, hdrop (by rwa [List.head?_reverse]), List.reverse_reverse]

theorem Selector.parse?_of_trim {cs : List Char} (htrim : trim cs = cs) (hne : cs ≠ []) :
    Selector.parse? cs = some ⟨Segment.ofTarget cs⟩ := by
  unfold parse?
  rw [htrim]
  split
  · exact absurd rfl hne
  · rfl
  · rw [Segment.ofTarget]
    assumption
  · rw [Segment.ofTarget]
    · assumption
    · assumption

/-- A text without colons spells an expression without a formula. -/
theorem Expression.parse_of_no_colon {text : String} (hcolon : ':' ∉ text.toList) :
    Expression.parse text = .ok ⟨text, Selector.parse? text.toList, none⟩ := by
  rw [parse, cutAt_eq_of_not_mem hcolon]

/-- A target leads where its segments lead. -/
theorem Cache.resolve_eq_lead (c : Cache) {text : String} (hstar : '*' ∉ text.toList)
    (anchor p : Place) :
    c.resolve text anchor p.path =
      match Segment.lead (c.showAt anchor) (Segment.ofTarget text.toList) p with
      | some q => .ok q
      | none => .error (.unresolvedShow anchor.path) := by
  rcases Segment.ofTarget_cases text.toList with
    ⟨rest, htext, he⟩ | ⟨rest, htext, hrest, he⟩ | ⟨hfirst, he⟩
  · have hrest : '*' ∉ rest := fun h => hstar (by simp [htext, h])
    rw [he, Segment.lead, Segment.onward, resolve, htext]
    cases c.showAt anchor with
    | none => rfl
    | some showRoot =>
      -- on one side all slashes in front are dropped, on the other the pieces between them
      have hslashes : (afterSlashes text).toList = rest.dropWhile (· == '/') := by
        simp [afterSlashes, htext]
      rw [Option.bind_some, Segment.lead_ofPieces hrest]
      dsimp only
      rw [Place.toPlace_join showRoot (head?_afterSlashes text), hslashes,
        Place.walk_dropWhile_slash]
      rfl
  · have hroot : '*' ∉ rest := fun h => hstar (by simp [htext, h])
    rw [he, Segment.lead, Segment.onward, Option.bind_some, Segment.lead_ofPieces hroot]
    dsimp only
    rw [← Path.toPlace_eq_walk (p := ⟨text⟩) htext, resolve, htext]
    split
    · rename_i h
      simp [(List.cons.inj h).2] at hrest
    · rfl
    · rename_i h
      exact absurd rfl (h rest)
  · rw [he, Segment.lead_ofPieces hstar]
    dsimp only
    rw [← Place.toPlace_join p hfirst, resolve]
    split
    · rename_i h
      simp [h] at hfirst
    · rename_i h
      simp [h] at hfirst
    · rfl

/-! ## 4. The path of a target -/

section Generate

variable {σ : Type} [FileSystem (StateM σ)]

/-- Putting the path of an expression together that was read from a target. -/
theorem run_generate_target {text : String} (hstar : '*' ∉ text.toList)
    (htrim : trim text.toList = text.toList) (c : Cache) (dir : Place) (s : σ) :
    (((Expression.mk text (Selector.parse? text.toList) none).generate dir :
        Work (StateM σ) (List Path)).run.run c).run s =
      match Segment.lead (c.showAt dir) (Segment.ofTarget text.toList) dir with
      | some q => ((.ok [q.path], c), s)
      | none => ((.error (.unresolvedShow dir.path), c), s) := by
  by_cases hne : text.toList = []
  · -- the working directory itself
    rw [hne]
    rfl
  · rw [Selector.parse?_of_trim htrim hne]
    exact Segment.run_candidates_of_single (Segment.single_of_mem_ofTarget hstar)

/-- A chain leads somewhere unless it starts from the root of a show and there is none. -/
theorem Segment.lead_ofTarget_eq_none_iff {showRoot : Option Place} {cs : List Char}
    (hstar : '*' ∉ cs) (p : Place) :
    lead showRoot (ofTarget cs) p = none ↔ ['/', '/'] <+: cs ∧ showRoot = none := by
  rcases ofTarget_cases cs with ⟨rest, rfl, he⟩ | ⟨rest, rfl, hrest, he⟩ | ⟨hfirst, he⟩
  · have hstar : '*' ∉ rest := fun h => hstar (by simp [h])
    rw [he, lead, onward]
    cases showRoot with
    | none => simp
    | some place => simp [lead_ofPieces hstar]
  · have hstar : '*' ∉ rest := fun h => hstar (by simp [h])
    rw [he, lead, onward, Option.bind_some, lead_ofPieces hstar]
    cases rest with
    | nil => simp
    | cons c rest => simpa using fun (e : '/' = c) => absurd e.symm (by simpa using hrest)
  · rw [he, lead_ofPieces hstar]
    cases cs with
    | nil => simp
    | cons c cs => simpa using fun (e : '/' = c) => absurd e.symm (by simpa using hfirst)

/-- A text without wildcards and colons that is not blank at its ends is the text of an
expression, and from the working directory this names the one path that the text leads to as
a target, asking the file system nothing. They fail together, where the text starts from the
root of a show and the working directory belongs to none. -/
theorem generate_eq_resolveTarget {text : String} (hstar : '*' ∉ text.toList)
    (hcolon : ':' ∉ text.toList) (hfront : text.toList.head?.any isBlank = false)
    (hback : text.toList.getLast?.any isBlank = false) :
    ∃ e, Expression.parse text = .ok e ∧ ∀ (c : Cache) (s : σ),
      ((e.generate c.workingPlace : Work (StateM σ) (List Path)).run.run c).run s =
        (((c.resolveTarget text c.workingPlace).map fun q => [q.path], c), s) ∧
      ∀ failure, c.resolveTarget text c.workingPlace = .error failure ↔
        failure = .unresolvedShow c.workingPlace.path ∧ ['/', '/'] <+: text.toList ∧
          c.showAt c.workingPlace = none := by
  refine ⟨_, Expression.parse_of_no_colon hcolon, fun c s => ?_⟩
  rw [run_generate_target hstar (trim_eq_self hfront hback), Cache.resolveTarget,
    c.resolve_eq_lead hstar, ← Segment.lead_ofTarget_eq_none_iff hstar c.workingPlace]
  cases Segment.lead (c.showAt c.workingPlace) (Segment.ofTarget text.toList) c.workingPlace with
  | none => exact ⟨rfl, fun failure => by simp [eq_comm]⟩
  | some q => exact ⟨rfl, fun failure => by simp⟩

end Generate

/-- A session that works in a directory inside a show. -/
def insideShow : Cache × Watched :=
  Request.watch [.eval "x"]
    ⟨.default, .entry (.entry .root ⟨"s", by decide⟩) ⟨"d", by decide⟩, []⟩
    (.ofTree (.ofFiles [(⟨"/s/.meta/_"⟩, { Record.blank with isShowRoot := true }.encode.toUTF8),
      (⟨"/s/d/x"⟩, .empty)]) fun _ => none)

/-- For instance a text with dots and idle slashes, which leads back to the root of the show
before it goes down. -/
theorem generate_eq_resolveTarget_dots :
    ∃ e, Expression.parse "///d/..//./y/" = .ok e ∧
      ((e.generate insideShow.1.workingPlace : Work (StateM Watched) (List Path)).run.run
        insideShow.1).run insideShow.2 = ((.ok [⟨"/s/y"⟩], insideShow.1), insideShow.2) := by
  have hstar : '*' ∉ "///d/..//./y/".toList := by decide
  obtain ⟨e, hparse, hgenerate⟩ := @generate_eq_resolveTarget Watched _ _ hstar (by decide)
    (by decide) (by decide)
  have hpath : (insideShow.1.resolveTarget "///d/..//./y/" insideShow.1.workingPlace).toOption.map
      Place.path = some ⟨"/s/y"⟩ := by decide +kernel
  refine ⟨e, hparse, ?_⟩
  rw [(hgenerate insideShow.1 insideShow.2).1]
  cases hresolve : insideShow.1.resolveTarget "///d/..//./y/" insideShow.1.workingPlace with
  | error failure =>
    rw [hresolve] at hpath
    cases hpath
  | ok q =>
    rw [hresolve] at hpath
    rw [Except.map, Option.some.inj hpath]

end ShowTree
