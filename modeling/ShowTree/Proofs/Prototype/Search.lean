/-
ShowTree.Proofs.Prototype.Search — which prototype is found.

An object is looked after level by level: its own directory first, then those above it up to
the root of its show (`Cache.levels`). Where a tree answers, the search stops at the nearest
level that holds any of the names it is given, and takes the first of them there
(`Truthful.run_findAmong`). The names that fit a new object are ranked (`Fits`), so the
automatic choice is the nearest level, and there the best name (`findProtoFor_nearest_best`).
A prototype that is asked for by name is joined to the directory unseen: it is an entry of a
prototype directory exactly if the text is a name (`findProto_isEntry_iff`).
-/
import ShowTree.Proofs.Cache.Truthful
import ShowTree.Proofs.Cache.Arena
import ShowTree.Proofs.Path.Walk
import ShowTree.Proofs.Selector.Named

namespace ShowTree

open ShowTree.Text

/-! ## 1. Names that fit -/

/-- How well a prototype fits an object with this name: the same name fits best, then the part
up to the first underscore, then an underscore and what follows the last dot. -/
inductive Fits (name : Name) : Nat → Name → Prop
  | same : Fits name 0 name
  | front {front rest : List Char} {proto : Name} (cut : name.chars = front ++ '_' :: rest)
      (first : '_' ∉ front) (named : proto.chars = front ++ ['_']) : Fits name 1 proto
  | ending {rest ending : List Char} {proto : Name} (cut : name.chars = rest ++ '.' :: ending)
      (last : '.' ∉ ending) (more : ending ≠ []) (named : proto.chars = '_' :: ending) :
      Fits name 2 proto

/-- Characters with an underscore among them and no slash make a name. -/
theorem exists_name_of_underscore {cs : List Char} (hmem : '_' ∈ cs) (hslash : '/' ∉ cs) :
    ∃ n : Name, n.chars = cs := by
  have hne : ∀ text : String, '_' ∉ text.toList → String.ofList cs ≠ text := by
    rintro text htext rfl
    rw [String.toList_ofList] at htext
    exact htext hmem
  refine ⟨⟨String.ofList cs, hne _ (by decide), hne _ (by decide), hne _ (by decide), ?_⟩, ?_⟩
  · rwa [String.toList_ofList]
  · exact String.toList_ofList

theorem prefixName?_eq_some_iff {name : Name} {text : String} :
    prefixName? name.text = some text ↔ ∃ proto, Fits name 1 proto ∧ proto.text = text := by
  unfold prefixName?
  constructor
  · intro h
    split at h
    · rename_i front rest hcut
      obtain ⟨hchars, hfirst⟩ := cutAt_eq_some_iff.1 hcut
      have hslash : '/' ∉ front ++ ['_'] := by
        have hname := name.slash_not_mem_chars
        rw [Name.chars, hchars] at hname
        simp_all
      obtain ⟨proto, hproto⟩ := exists_name_of_underscore (by simp) hslash
      refine ⟨proto, .front hchars hfirst hproto, ?_⟩
      rw [← Option.some.inj h, ← hproto]
      exact String.ofList_toList.symm
    · cases h
  · rintro ⟨proto, hfits, rfl⟩
    cases hfits with
    | front cut first named =>
      rw [show name.text.toList = _ from cut, cutAt_eq_some_iff.2 ⟨rfl, first⟩]
      exact congrArg some (String.toList_injective (by rw [String.toList_ofList, ← named]; rfl))

theorem extensionName?_eq_some_iff {name : Name} {text : String} :
    extensionName? name.text = some text ↔ ∃ proto, Fits name 2 proto ∧ proto.text = text := by
  unfold extensionName?
  constructor
  · intro h
    split at h
    · cases h
    · rename_i back rest hmore hcut
      obtain ⟨hrev, hlast⟩ := cutAt_eq_some_iff.1 hcut
      have hchars : name.chars = rest.reverse ++ '.' :: back.reverse := by
        rw [Name.chars, ← List.reverse_reverse name.text.toList, hrev]
        simp
      have hslash : '/' ∉ '_' :: back.reverse := by
        have hname := name.slash_not_mem_chars
        rw [hchars] at hname
        simp_all
      obtain ⟨proto, hproto⟩ := exists_name_of_underscore (by simp) hslash
      refine ⟨proto, .ending hchars (by simpa using hlast) (fun he => ?_) hproto, ?_⟩
      · exact hmore (List.reverse_eq_nil_iff.1 he)
      · rw [← Option.some.inj h, ← hproto]
        exact String.ofList_toList.symm
    · cases h
  · rintro ⟨proto, hfits, rfl⟩
    cases hfits with
    | @ending rest ending _ cut last more named =>
      have hrev : name.text.toList.reverse = ending.reverse ++ '.' :: rest.reverse := by
        rw [show name.text.toList = _ from cut]
        simp
      rw [hrev, cutAt_eq_some_iff.2 ⟨rfl, by simpa using last⟩]
      have htext : String.ofList ('_' :: ending.reverse.reverse) = proto.text :=
        String.toList_injective (by rw [String.toList_ofList, List.reverse_reverse, ← named]; rfl)
      cases hcase : ending.reverse with
      | nil => exact absurd (List.reverse_eq_nil_iff.1 hcase) more
      | cons d ds => exact congrArg some (hcase ▸ htext)

/-- The name of one rank, if the object's name has one. -/
def protoName? (name : String) : Nat → Option String
  | 0 => some name
  | 1 => prefixName? name
  | 2 => extensionName? name
  | _ => none

theorem protoName?_eq_some_iff {name : Name} {text : String} : ∀ {rank : Nat},
    protoName? name.text rank = some text ↔ ∃ proto, Fits name rank proto ∧ proto.text = text
  | 0 => by
    constructor
    · rintro h
      exact ⟨name, .same, Option.some.inj h⟩
    · rintro ⟨proto, hfits, rfl⟩
      cases hfits
      rfl
  | 1 => prefixName?_eq_some_iff
  | 2 => extensionName?_eq_some_iff
  | rank + 3 => by
    constructor
    · intro h
      cases h
    · rintro ⟨proto, hfits, -⟩
      cases hfits

/-- Names that repeat the one before them are never the first to be found. -/
theorem find?_dedup (there : String → Bool) (names : List String) :
    (dedup names).find? there = names.find? there := by
  fun_induction dedup names with
  | case1 b rest ih =>
    rw [ih]
    cases hb : there b <;> simp [hb]
  | case2 a b rest hne ih => rw [List.find?_cons, List.find?_cons, ih]
  | case3 names => rfl

/-- The first name that is found, by its rank. -/
theorem find?_protoNames (there : String → Bool) (name : String) :
    (protoNames name).find? there =
      ((List.range 3).find? fun rank => (protoName? name rank).any there).bind (protoName? name) := by
  have hranks : protoNames name = dedup ((List.range 3).filterMap (protoName? name)) := by
    rw [protoNames, show List.range 3 = [0, 1, 2] from rfl]
    cases hp : prefixName? name <;> cases he : extensionName? name <;>
      simp [protoName?, hp, he]
  rw [hranks, find?_dedup, List.find?_filterMap]

/-- There is nothing with a name of one rank. -/
theorem any_protoName?_eq_false_iff {there : String → Bool} {name : Name} {rank : Nat} :
    (protoName? name.text rank).any there = false ↔
      ∀ proto, Fits name rank proto → there proto.text = false := by
  constructor
  · intro h proto hfits
    rwa [protoName?_eq_some_iff.2 ⟨proto, hfits, rfl⟩, Option.any_some] at h
  · intro h
    cases hrank : protoName? name.text rank with
    | none => rfl
    | some text =>
      obtain ⟨proto, hfits, rfl⟩ := protoName?_eq_some_iff.1 hrank
      exact h proto hfits

/-- The first of the names that is found is the best that fits and is there. -/
theorem find?_protoNames_eq_some_iff {there : String → Bool} {name : Name} {text : String} :
    (protoNames name.text).find? there = some text ↔
      ∃ rank proto, Fits name rank proto ∧ proto.text = text ∧ there text = true ∧
        ∀ better < rank, ∀ other, Fits name better other → there other.text = false := by
  rw [find?_protoNames, Option.bind_eq_some_iff]
  constructor
  · rintro ⟨rank, hfind, hrank⟩
    obtain ⟨hthere, -, hbetter⟩ := List.find?_range_eq_some.1 hfind
    obtain ⟨proto, hfits, rfl⟩ := protoName?_eq_some_iff.1 hrank
    refine ⟨rank, proto, hfits, rfl, by simpa [hrank] using hthere, fun better hlt => ?_⟩
    exact any_protoName?_eq_false_iff.1 (by simpa using hbetter better hlt)
  · rintro ⟨rank, proto, hfits, rfl, hthere, hbetter⟩
    have hrank := protoName?_eq_some_iff.2 ⟨proto, hfits, rfl⟩
    have hlt : rank < 3 := by cases hfits <;> decide
    refine ⟨rank, List.find?_range_eq_some.2 ⟨?_, List.mem_range.2 hlt, fun better hlt => ?_⟩, hrank⟩
    · rw [hrank, Option.any_some, hthere]
    · rw [any_protoName?_eq_false_iff.2 (hbetter better hlt), Bool.not_false]

/-- None of the names is found if nothing that fits is there. -/
theorem find?_protoNames_eq_none_iff {there : String → Bool} {name : Name} :
    (protoNames name.text).find? there = none ↔
      ∀ rank proto, Fits name rank proto → there proto.text = false := by
  rw [find?_protoNames]
  constructor
  · intro h rank proto hfits
    have hlt : rank < 3 := by cases hfits <;> decide
    have hnone : ((List.range 3).find? fun rank => (protoName? name.text rank).any there) = none := by
      cases hfind : (List.range 3).find? fun rank => (protoName? name.text rank).any there with
      | none => rfl
      | some best =>
        rw [hfind, Option.bind_some] at h
        have hbest := List.find?_some hfind
        rw [h] at hbest
        cases hbest
    exact any_protoName?_eq_false_iff.1
      (by simpa using List.find?_range_eq_none.1 hnone rank hlt) proto hfits
  · intro h
    have hnone : ((List.range 3).find? fun rank => (protoName? name.text rank).any there) = none :=
      List.find?_range_eq_none.2 fun rank _ => by rw [any_protoName?_eq_false_iff.2 (h rank)]; rfl
    rw [hnone, Option.bind_none]

/-! ## 2. Levels -/

theorem isName_proto : IsName "proto" := by decide

/-- The name of the directory for prototypes. -/
def Layout.protoName : Name := ⟨"proto", isName_proto⟩

/-- The directory for the prototypes of a directory. -/
def Place.protoDir (dir : Place) : Place :=
  .entry dir.metaDir Layout.protoName

theorem Place.protoPath_path (dir : Place) : Layout.default.protoPath dir.path = dir.protoDir.path :=
  rfl

namespace Cache

/-- The places where prototypes of an object can be, nearest first: from its own up to the root
of its show, or outside of shows up to that of the file system. -/
def levels (c : Cache) (p : Place) : List Place :=
  match c.showAt p with
  | some showRoot => p.upward.takeWhile (· ≠ showRoot) ++ [showRoot]
  | none => p.upward

/-- Whether the place is a directory with something of this name in its directory for
prototypes. -/
def holdsProto (c : Cache) (t : Tree) (dir : Place) (text : String) : Bool :=
  c.isDirAt dir && t.isDir dir.protoDir.path && t.present (dir.protoDir.path.join text)

/-- The directory for prototypes of a place, if the place is a directory and has one. -/
def ownDirs (c : Cache) (t : Tree) (dir : Place) : List Path :=
  if c.isDirAt dir && t.isDir dir.protoDir.path then [dir.protoDir.path] else []

end Cache

namespace Grown

variable {c : Cache}

/-- The root of an object's show is the nearest marked object on its way up. -/
theorem showAt_eq (hg : Grown c.nodes) {p : Place} (hp : (c.node? p).isSome) :
    c.showAt p = p.upward.find? (marked c.nodes) := by
  obtain ⟨n, hn⟩ := Option.isSome_iff_exists.1 hp
  obtain ⟨hmem, rfl⟩ := Cache.node?_eq_some hn
  rw [Cache.showAt, Cache.nodeAt, hn, Option.getD_some, hg.showRoot_eq n hmem]

theorem levels_root (hg : Grown c.nodes) : c.levels .root = [.root] := by
  rw [Cache.levels]
  split
  · rename_i showRoot hshow
    obtain rfl := List.mem_singleton.1 (hg.showAt_mem_upward hshow).2
    simp [Place.upward]
  · rfl

/-- Above an object that is not the root of its show, the levels are those of its directory. -/
theorem levels_entry (hg : Grown c.nodes) {dir : Place} {name : Name}
    (hp : (c.node? (.entry dir name)).isSome) :
    c.levels (.entry dir name) = .entry dir name ::
      if c.showAt (.entry dir name) = some (.entry dir name) then [] else c.levels dir := by
  have hdir : (c.node? dir).isSome :=
    hg.met_of_mem_upward hp (List.mem_cons_of_mem _ dir.self_mem_upward)
  have hup : (Place.entry dir name).upward = .entry dir name :: dir.upward := rfl
  by_cases hself : c.showAt (.entry dir name) = some (.entry dir name)
  · rw [if_pos hself, Cache.levels, hself, hup]
    simp
  · rw [if_neg hself]
    have hshow : c.showAt (.entry dir name) = c.showAt dir := by
      rw [hg.showAt_eq hp, hg.showAt_eq hdir, hup, List.find?_cons]
      split
      · rename_i hmarked
        refine absurd ?_ hself
        rw [hg.showAt_eq hp, hup, List.find?_cons, hmarked]
      · rfl
    rw [Cache.levels, Cache.levels, hshow]
    cases hroot : c.showAt dir with
    | none => rfl
    | some showRoot =>
      have hne : Place.entry dir name ≠ showRoot := by
        rintro rfl
        exact Place.entry_not_mem_upward (hg.showAt_mem_upward hroot).2
      dsimp only
      rw [hup, List.takeWhile_cons_of_pos (by simpa using hne), List.cons_append]

end Grown

/-! ## 3. The search -/

namespace Truthful

variable {σ : Type} [FileSystem (StateM σ)] {view : σ → Tree} {c : Cache} {s : σ}

theorem run_ownProtoDir (h : Truthful view) (hlayout : c.layout = .default) (p : Place) :
    ((Cache.ownProtoDir p : Work (StateM σ) _).run.run c).run s =
      ((.ok (c.ownDirs (view s) p), c), s) := by
  rw [Cache.ownProtoDir, Cache.ownDirs, run_bind, run_get]
  dsimp only
  rw [run_bind, run_get, hlayout, Place.protoPath_path]
  dsimp only
  cases c.isDirAt p with
  | false => rfl
  | true =>
    rw [if_pos rfl, run_bind, h.run_query_isDir]
    dsimp only
    cases (view s).isDir p.protoDir.path <;> rfl

/-- The directories for prototypes are those of the levels that have one. -/
theorem run_protoDirs (h : Truthful view) (hg : Grown c.nodes) (hlayout : c.layout = .default) :
    ∀ {p : Place}, (c.node? p).isSome →
      ((Cache.protoDirs p : Work (StateM σ) _).run.run c).run s =
        ((.ok ((c.levels p).flatMap (c.ownDirs (view s))), c), s)
  | .root, _ => by
    rw [hg.levels_root, List.flatMap_singleton, Cache.protoDirs]
    exact h.run_ownProtoDir hlayout .root
  | .entry dir name, hp => by
    have hdir : (c.node? dir).isSome :=
      hg.met_of_mem_upward hp (List.mem_cons_of_mem _ dir.self_mem_upward)
    rw [hg.levels_entry hp, List.flatMap_cons, Cache.protoDirs, run_bind, h.run_ownProtoDir hlayout]
    dsimp only
    rw [run_bind, run_get]
    dsimp only
    split
    · rw [List.flatMap_nil, List.append_nil]
      rfl
    · rw [run_bind, run_protoDirs h hg hlayout hdir]
      rfl

theorem run_firstPresent (h : Truthful view) : ∀ paths : List Path,
    ((Cache.firstPresent paths : Work (StateM σ) _).run.run c).run s =
      ((.ok (paths.find? (view s).present), c), s)
  | [] => rfl
  | p :: rest => by
    rw [Cache.firstPresent, run_bind, run_query, h.present]
    dsimp only
    rw [List.find?_cons]
    cases (view s).present p with
    | true => rfl
    | false => exact run_firstPresent h rest

/-- The search stops at the nearest level that holds any of the names, and takes the first. -/
theorem run_findAmong (h : Truthful view) (hg : Grown c.nodes) (hlayout : c.layout = .default)
    {p : Place} (hp : (c.node? p).isSome) (names : List String) :
    ((Cache.findAmong p names : Work (StateM σ) _).run.run c).run s =
      ((.ok ((c.levels p).findSome? fun dir =>
        (names.find? (c.holdsProto (view s) dir)).map dir.protoDir.path.join), c), s) := by
  have hlevel : ∀ dir : Place,
      ((c.ownDirs (view s) dir).flatMap fun path => names.map path.join).find? (view s).present =
        (names.find? (c.holdsProto (view s) dir)).map dir.protoDir.path.join := by
    intro dir
    rw [Cache.ownDirs]
    split
    · rename_i hopen
      rw [List.flatMap_singleton, List.find?_map]
      congr 2
      funext text
      rw [Cache.holdsProto, hopen, Bool.true_and, Function.comp_apply]
    · rename_i hshut
      have hnone : names.find? (c.holdsProto (view s) dir) = none :=
        List.find?_eq_none.2 fun text _ hholds => hshut (Bool.and_eq_true_iff.1 hholds).1
      rw [hnone]
      rfl
  rw [Cache.findAmong, run_bind, h.run_protoDirs hg hlayout hp]
  dsimp only
  rw [h.run_firstPresent, List.flatMap_assoc, List.find?_flatMap]
  simp only [hlevel]

end Truthful

/-! ## 4. The nearest level, and there the best name -/

namespace Cache

/-- What is chosen for a new object with a name: at the nearest level that holds anything that
fits, the best of it. -/
structure Picks (c : Cache) (t : Tree) (p : Place) (name : Name) (dir : Place) (proto : Name) :
    Prop where
  nearest : ∃ nearer farther, c.levels p = nearer ++ dir :: farther ∧ ∀ q ∈ nearer, ∀ rank other,
    Fits name rank other → c.holdsProto t q other.text = false
  held : c.holdsProto t dir proto.text = true
  best : ∃ rank, Fits name rank proto ∧ ∀ better < rank, ∀ other,
    Fits name better other → c.holdsProto t dir other.text = false

end Cache

namespace Truthful

variable {σ : Type} [FileSystem (StateM σ)] {view : σ → Tree} {c : Cache} {s : σ}

/-- Choosing a prototype answers with the one that is picked, and with none if nothing that fits
is held at any level. -/
theorem run_findProtoFor? (h : Truthful view) (hg : Grown c.nodes) (hlayout : c.layout = .default)
    {p : Place} (hp : (c.node? p).isSome) (name : Name) :
    ∃ found, ((Cache.findProtoFor? p name.text : Work (StateM σ) _).run.run c).run s =
        ((.ok found, c), s) ∧
      (∀ path, found = some path ↔ ∃ dir proto, c.Picks (view s) p name dir proto ∧
        path = (Place.entry dir.protoDir proto).path) ∧
      (found = none ↔ ∀ dir ∈ c.levels p, ∀ rank proto, Fits name rank proto →
        c.holdsProto (view s) dir proto.text = false) := by
  refine ⟨_, h.run_findAmong hg hlayout hp (protoNames name.text), fun path => ?_, ?_⟩
  · rw [List.findSome?_eq_some_iff]
    constructor
    · rintro ⟨nearer, dir, farther, hlevels, hfound, hnearer⟩
      obtain ⟨text, htext, rfl⟩ := Option.map_eq_some_iff.1 hfound
      obtain ⟨rank, proto, hfits, rfl, hheld, hbetter⟩ := find?_protoNames_eq_some_iff.1 htext
      refine ⟨dir, proto, ⟨⟨nearer, farther, hlevels, fun q hq => ?_⟩, hheld, rank, hfits, hbetter⟩,
        rfl⟩
      exact find?_protoNames_eq_none_iff.1 (Option.map_eq_none_iff.1 (hnearer q hq))
    · rintro ⟨dir, proto, hpicks, rfl⟩
      obtain ⟨nearer, farther, hlevels, hnearer⟩ := hpicks.nearest
      obtain ⟨rank, hfits, hbetter⟩ := hpicks.best
      refine ⟨nearer, dir, farther, hlevels, ?_, fun q hq => ?_⟩
      · rw [find?_protoNames_eq_some_iff.2 ⟨rank, proto, hfits, rfl, hpicks.held, hbetter⟩]
        rfl
      · rw [find?_protoNames_eq_none_iff.2 (hnearer q hq)]
        rfl
  · rw [List.findSome?_eq_none_iff]
    refine forall₂_congr fun dir _ => ?_
    rw [Option.map_eq_none_iff, find?_protoNames_eq_none_iff]

end Truthful

namespace Cache

/-- The automatic choice of a prototype, at any time of a session and whatever the tree is then:
it is the path of what is picked, and it fails exactly if no level from the object up to the
root of its show holds anything that fits. -/
theorem findProtoFor_nearest_best {c : Cache} (hc : Reachable Tree c) (hlayout : c.layout = .default)
    {p : Place} (hp : (c.node? p).isSome) (name : Name) (t : Tree) :
    ∃ answer, ((findProtoFor p name.text : Work (StateM Tree) Path).run.run c).run t =
        ((answer, c), t) ∧
      (∀ path, answer = .ok path ↔ ∃ dir proto, c.Picks t p name dir proto ∧
        path = (Place.entry dir.protoDir proto).path) ∧
      (∀ e, answer = .error e ↔ e = .noProto name.text ∧ ∀ dir ∈ c.levels p, ∀ rank proto,
        Fits name rank proto → c.holdsProto t dir proto.text = false) := by
  obtain ⟨found, hrun, hsome, hnone⟩ :=
    truthful_tree.run_findProtoFor? (s := t) hc.grown hlayout hp name
  cases found with
  | some path =>
    refine ⟨.ok path, ?_, fun path' => ?_, fun e => ?_⟩
    · rw [findProtoFor, run_bind, hrun]
      rfl
    · rw [← hsome, Except.ok.injEq, Option.some.injEq]
    · constructor
      · intro h
        cases h
      · intro h
        exact absurd (hnone.2 h.2) (Option.some_ne_none path)
  | none =>
    refine ⟨.error (.noProto name.text), ?_, fun path => ?_, fun e => ?_⟩
    · rw [findProtoFor, run_bind, hrun]
      rfl
    · constructor
      · intro h
        cases h
      · intro h
        cases (hsome path).2 h
    · rw [Except.error.injEq, eq_comm, and_iff_left (hnone.1 rfl)]

/-- A show with prototypes at two levels: farther away one of the same name, nearer one that
only fits up to the underscore. -/
def twoLevels : Tree :=
  .ofFiles [(⟨"/outer/.meta/_"⟩, { Record.blank with isShowRoot := true }.encode.toUTF8),
    (⟨"/outer/.meta/proto/b_c.d"⟩, .empty), (⟨"/outer/inner/.meta/proto/b_"⟩, .empty),
    (⟨"/outer/inner/.meta/proto/_d"⟩, .empty), (⟨"/.meta/proto/x"⟩, .empty)]

/-- The inner directory. -/
def innerLevel : Place :=
  .entry (.entry .root ⟨"outer", by decide⟩) ⟨"inner", by decide⟩

/-- The cache of a session that has met it. -/
def twoLevelsCache : Cache :=
  ((((Deed.meet innerLevel.path).run : StateT Cache (StateM Tree) Unit).run
    ⟨.default, .root, []⟩).run twoLevels).1.2

/-- What is chosen there for a new object with this name. -/
def chosenInside (name : Name) : Except Failure Path :=
  (((findProtoFor innerLevel name.text : Work (StateM Tree) Path).run.run twoLevelsCache).run
    twoLevels).1.1

/-- The nearer level counts for more than the better name, and what lies above the root of the
show is not looked at. -/
theorem findProtoFor_nearest_best_levels :
    Reachable Tree twoLevelsCache ∧
      (∃ dir proto, twoLevelsCache.Picks twoLevels innerLevel ⟨"b_c.d", by decide⟩ dir proto ∧
        (Place.entry dir.protoDir proto).path = ⟨"/outer/inner/.meta/proto/b_"⟩) ∧
      ∀ dir ∈ twoLevelsCache.levels innerLevel, ∀ rank proto, Fits ⟨"x", by decide⟩ rank proto →
        twoLevelsCache.holdsProto twoLevels dir proto.text = false := by
  have hreach : Reachable Tree twoLevelsCache := (Reachable.empty .default .root).deed _ _
  obtain ⟨hlayout, hmet, hfound, hfailed⟩ :
      twoLevelsCache.layout = .default ∧ (twoLevelsCache.node? innerLevel).isSome = true ∧
      chosenInside ⟨"b_c.d", by decide⟩ = .ok ⟨"/outer/inner/.meta/proto/b_"⟩ ∧
      chosenInside ⟨"x", by decide⟩ = .error (.noProto "x") := by decide +kernel
  refine ⟨hreach, ?_, ?_⟩
  · obtain ⟨answer, hrun, hok, -⟩ :=
      findProtoFor_nearest_best hreach hlayout hmet ⟨"b_c.d", by decide⟩ twoLevels
    rw [chosenInside, hrun] at hfound
    obtain ⟨dir, proto, hpicks, hpath⟩ := (hok _).1 hfound
    exact ⟨dir, proto, hpicks, hpath.symm⟩
  · obtain ⟨answer, hrun, -, herror⟩ :=
      findProtoFor_nearest_best hreach hlayout hmet ⟨"x", by decide⟩ twoLevels
    rw [chosenInside, hrun] at hfailed
    exact ((herror _).1 hfailed).2

end Cache

/-! ## 5. Prototypes that are asked for by name -/

namespace Path

/-- The path is that of an entry of the directory with exactly this name. -/
def IsEntry (p dir : Path) (text : String) : Prop :=
  ∃ n : Name, n.text = text ∧ p.parts = dir.parts ++ [.name n]

theorem isAbsolute_join {p : Path} (hp : p.isAbsolute = true) (tail : String) :
    (p.join tail).isAbsolute = true := by
  obtain ⟨cs, hcs⟩ := isAbsolute_iff.1 hp
  rw [join]
  split
  · rename_i htail
    rwa [isAbsolute, beq_iff_eq]
  · split <;> rw [isAbsolute_iff] <;> simp [hcs]

/-- A name that is joined to a directory is an entry of it. -/
theorem isEntry_join {dir : Path} (hdir : dir.isAbsolute = true) {text : String}
    (h : IsName text) : (dir.join text).IsEntry dir text := by
  let n : Name := ⟨text, h⟩
  refine ⟨n, rfl, ?_⟩
  have hpiece : splitOn '/' text.toList = [n.chars] := splitOn_eq_singleton n.slash_not_mem_chars
  rw [parts_join hdir n.head?_chars_ne, hpiece, List.filterMap_cons, n.ofPiece?_chars]
  rfl

end Path

section AnyFileSystem

variable {σ : Type} [FileSystem (StateM σ)]

theorem Layout.isAbsolute_protoPath (l : Layout) (p : Place) :
    (l.protoPath p.path).isAbsolute = true :=
  Path.isAbsolute_join (Path.isAbsolute_join p.isAbsolute_path _) _

theorem triple_ownProtoDir (p : Place) :
    Triple (fun _ (_ : σ) => True) (Cache.ownProtoDir p)
      (fun dirs _ _ => ∀ dir ∈ dirs, dir.isAbsolute = true) (fun _ _ _ => True) := by
  refine Triple.bind Triple.get fun c => Triple.bind Triple.get fun c' => ?_
  split
  · refine Triple.bind (Triple.query (Q := fun _ _ _ => True) fun _ _ _ => trivial) fun isDir => ?_
    split
    · refine Triple.pure fun _ _ _ dir hdir => ?_
      rw [List.mem_singleton.1 hdir]
      exact c.layout.isAbsolute_protoPath p
    · exact Triple.pure fun _ _ _ dir hdir => absurd hdir List.not_mem_nil
  · exact Triple.pure fun _ _ _ dir hdir => absurd hdir List.not_mem_nil

/-- All directories for prototypes have absolute paths. -/
theorem triple_protoDirs : ∀ p : Place,
    Triple (fun _ (_ : σ) => True) (Cache.protoDirs p)
      (fun dirs _ _ => ∀ dir ∈ dirs, dir.isAbsolute = true) (fun _ _ _ => True)
  | .root => triple_ownProtoDir .root
  | .entry dir name => by
    refine Triple.bind (triple_ownProtoDir _) fun own => ?_
    refine Triple.of_forall fun c s hown => ?_
    refine Triple.bind (Triple.get (P := fun _ _ => True) |>.pre fun _ _ _ => trivial) fun c' => ?_
    split
    · exact Triple.pure fun _ _ _ => hown
    · refine Triple.bind ((triple_protoDirs dir).pre fun _ _ _ => trivial) fun above => ?_
      refine Triple.pure fun _ _ habove q hq => ?_
      rcases List.mem_append.1 hq with hq | hq
      · exact hown q hq
      · exact habove q hq

/-- What is found is among what was looked for. -/
theorem triple_firstPresent : ∀ paths : List Path,
    Triple (fun _ (_ : σ) => True) (Cache.firstPresent paths)
      (fun found _ _ => ∀ p ∈ found, p ∈ paths) (fun _ _ _ => True)
  | [] => Triple.pure fun _ _ _ p hp => by cases hp
  | p :: rest => by
    refine Triple.bind (Triple.query (Q := fun _ _ _ => True) fun _ _ _ => trivial) fun there => ?_
    split
    · refine Triple.pure fun _ _ _ q hq => ?_
      rw [Option.some.inj hq]
      exact List.mem_cons_self
    · exact (triple_firstPresent rest).post fun found _ _ hfound q hq =>
        List.mem_cons_of_mem p (hfound q hq)

namespace Cache

/-- A prototype that is found by name, whatever the text for the name and whatever the file system
answers, is one of the directories for prototypes with the text joined to it. It is an entry of
one of them exactly if the text is a name. -/
theorem findProto_isEntry_iff {c c' : Cache} {s s' : σ} {p : Place} {name : String} {found : Path}
    (h : ((findProto p name : Work (StateM σ) Path).run.run c).run s = ((.ok found, c'), s')) :
    ∃ dirs c₁ s₁, ((protoDirs p : Work (StateM σ) _).run.run c).run s = ((.ok dirs, c₁), s₁) ∧
      (∃ dir ∈ dirs, found = dir.join name) ∧
      ((∃ dir ∈ dirs, found.IsEntry dir name) ↔ IsName name) := by
  rw [findProto, run_bind, findAmong, run_bind] at h
  have habsolute := triple_protoDirs p c s trivial
  generalize ((protoDirs p : Work (StateM σ) _).run.run c).run s = out at h habsolute ⊢
  obtain ⟨⟨dirs, c₁⟩, s₁⟩ := out
  cases dirs with
  | error e => cases h
  | ok dirs =>
    dsimp only at h
    have hfirst := triple_firstPresent (dirs.flatMap fun dir => [name].map dir.join) c₁ s₁ trivial
    generalize ((firstPresent (dirs.flatMap fun dir => [name].map dir.join) :
      Work (StateM σ) _).run.run c₁).run s₁ = out at h hfirst
    obtain ⟨⟨first, c₂⟩, s₂⟩ := out
    cases first with
    | error e => cases h
    | ok first =>
      cases first with
      | none => cases h
      | some path =>
        cases h
        obtain ⟨dir, hdir, hpath⟩ := List.mem_flatMap.1 (hfirst found rfl)
        obtain rfl := List.mem_singleton.1 hpath
        refine ⟨dirs, c₁, s₁, rfl, ⟨dir, hdir, rfl⟩, ?_, fun hname => ?_⟩
        · rintro ⟨dir', -, n, rfl, -⟩
          exact n.isName
        · exact ⟨dir, hdir, Path.isEntry_join (habsolute dir hdir) hname⟩

end Cache

end AnyFileSystem

namespace Cache

/-- A prototype at the root, and a file that is none. -/
def besideProtos : Tree :=
  .ofFiles [(⟨"/.meta/proto/P"⟩, .empty), (⟨"/x"⟩, .empty)]

/-- The cache of a session that has met the root. -/
def besideProtosCache : Cache :=
  ((((Deed.meet ⟨"/"⟩).run : StateT Cache (StateM Tree) Unit).run ⟨.default, .root, []⟩).run
    besideProtos).1.2

/-- What is found there by this name. -/
def foundBeside (name : String) : (Except Failure Path × Cache) × Tree :=
  ((findProto .root name : Work (StateM Tree) Path).run.run besideProtosCache).run besideProtos

/-- The directories for prototypes there. -/
def dirsBeside : (Except Failure (List Path) × Cache) × Tree :=
  ((protoDirs .root : Work (StateM Tree) _).run.run besideProtosCache).run besideProtos

/-- The prototype is found by its name. -/
theorem findProto_isEntry_iff_name :
    ∃ found dirs, (foundBeside "P").1.1 = .ok found ∧ dirsBeside.1.1 = .ok dirs ∧
      ∃ dir ∈ dirs, found.IsEntry dir "P" := by
  obtain ⟨found, hrun⟩ := exists_eq_ok (o := foundBeside "P") (by decide +kernel)
  obtain ⟨dirs, c₁, s₁, hdirs, -, hentry⟩ := findProto_isEntry_iff hrun
  exact ⟨found, dirs, by rw [hrun], by rw [dirsBeside, hdirs], hentry.2 (by decide)⟩

/-- The file is found by its absolute path, though no directory for prototypes holds it. -/
theorem not_findProto_isEntry_absolute :
    Reachable Tree besideProtosCache ∧ (besideProtosCache.node? .root).isSome ∧
      (foundBeside "/x").1.1 = .ok ⟨"/x"⟩ ∧ dirsBeside.1.1 = .ok [⟨"/.meta/proto"⟩] ∧
      ¬ Path.IsEntry ⟨"/x"⟩ ⟨"/.meta/proto"⟩ "/x" := by
  refine ⟨(Reachable.empty .default .root).deed _ _, by decide +kernel, by decide +kernel,
    by decide +kernel, ?_⟩
  rintro ⟨n, htext, -⟩
  exact absurd (htext ▸ n.isName) (by decide)

end Cache

end ShowTree
