/-
ShowTree.Proofs.Prototype.Listing — the prototypes that are listed are those that are found.

A listing goes through the directories for prototypes from the nearest on and keeps the first
prototype of each name; a search by name stops at the first directory that holds it. Both come
to the nearest level that holds the name (`Truthful.run_findProto`,
`Truthful.run_listProtos`), so a name is listed exactly if it can be found, and the reference
that is listed leads to what is found (`listProtos_findProto_agree`).
-/
import ShowTree.Proofs.Dictionary
import ShowTree.Proofs.Prototype.Reference
import ShowTree.Proofs.Prototype.Search

namespace ShowTree

open ShowTree.Layout (metaName)

/-! ## 1. The nearest level -/

/-- The first of some values is that of the first item that counts, if all items that count have
a value. -/
theorem findSome?_ite {α β : Type} {counts : α → Bool} {f : α → Option β} {items : List α}
    (h : ∀ a ∈ items, counts a = true → (f a).isSome) :
    (items.findSome? fun a => if counts a then f a else none) = (items.find? counts).bind f := by
  induction items with
  | nil => rfl
  | cons a rest ih =>
    have hrest := ih fun b hb => h b (List.mem_cons_of_mem a hb)
    rw [List.findSome?_cons, List.find?_cons, hrest]
    cases hcounts : counts a with
    | true =>
      obtain ⟨b, hb⟩ := Option.isSome_iff_exists.1 (h a List.mem_cons_self hcounts)
      simp [hb]
    | false => rfl

/-- The references to what is in a directory, by name, without that of its metadata. -/
def Tree.references (t : Tree) (showRoot : Place) (dir : Path) : List (String × String) :=
  ((t.names dir.key).filter (· != Layout.default.metaDir)).filterMap fun name =>
    (reference? showRoot (dir.join name)).map (name, ·)

namespace Cache

/-- The nearest level that holds a prototype with this name. -/
def nearest? (c : Cache) (t : Tree) (p : Place) (text : String) : Option Place :=
  (c.levels p).find? fun dir => c.holdsProto t dir text

end Cache

/-- What comes before a place on the way up is below it. -/
theorem Place.mem_upward_of_mem_takeWhile {r dir : Place} : ∀ {p : Place}, r ∈ p.upward →
    dir ∈ p.upward.takeWhile (· ≠ r) → r ∈ dir.upward
  | .root, hr, hdir => by
    rw [List.mem_singleton.1 hr] at hdir
    simp [upward] at hdir
  | .entry above name, hr, hdir => by
    rw [upward, List.takeWhile_cons] at hdir
    split at hdir
    · rename_i hne
      rcases List.mem_cons.1 hdir with rfl | hdir
      · exact hr
      · have hrest := (List.mem_cons.1 hr).resolve_left fun he => by simp [he] at hne
        exact mem_upward_of_mem_takeWhile hrest hdir
    · cases hdir

namespace Grown

variable {c : Cache} {p dir showRoot : Place}

/-- All levels of an object in a show are in the show. -/
theorem showRoot_mem_upward_of_level (hg : Grown c.nodes) (hshow : c.showAt p = some showRoot)
    (hdir : dir ∈ c.levels p) : showRoot ∈ dir.upward := by
  rw [Cache.levels, hshow] at hdir
  rcases List.mem_append.1 hdir with hdir | hdir
  · exact Place.mem_upward_of_mem_takeWhile (hg.showAt_mem_upward hshow).2 hdir
  · rw [List.mem_singleton.1 hdir]
    exact showRoot.self_mem_upward

/-- What is in the directory for prototypes of a level has a reference from the root of the
show. -/
theorem isSome_reference?_of_level (hg : Grown c.nodes) (hshow : c.showAt p = some showRoot)
    (hdir : dir ∈ c.levels p) (n : Name) :
    (reference? showRoot (Place.entry dir.protoDir n).path).isSome := by
  obtain ⟨ns, hns⟩ := Place.mem_upward_iff.1 (hg.showRoot_mem_upward_of_level hshow hdir)
  have hnames : (Place.entry dir.protoDir n).names =
      showRoot.names ++ (ns ++ [metaName, Layout.protoName, n]) := by
    simp [Place.protoDir, Place.metaDir, Place.names, ← hns]
  exact Option.isSome_iff_exists.2 ⟨_, Place.reference?_path_eq_some_iff.2 ⟨_, hnames, rfl⟩⟩

end Grown

/-! ## 2. Finding and listing -/

namespace Truthful

variable {σ : Type} [FileSystem (StateM σ)] {view : σ → Tree} {c : Cache} {s : σ}

/-- A prototype is found by name at the nearest level that holds it. -/
theorem run_findProto (h : Truthful view) (hg : Grown c.nodes) (hlayout : c.layout = .default)
    {p : Place} (hp : (c.node? p).isSome) (name : String) :
    ((Cache.findProto p name : Work (StateM σ) Path).run.run c).run s =
      ((match c.nearest? (view s) p name with
        | some dir => .ok (dir.protoDir.path.join name)
        | none => .error (.noProto name), c), s) := by
  have hlevel : ∀ dir : Place, ([name].find? (c.holdsProto (view s) dir)).map
      dir.protoDir.path.join =
      if c.holdsProto (view s) dir name then some (dir.protoDir.path.join name) else none := by
    intro dir
    rw [List.find?_singleton]
    split <;> rfl
  rw [Cache.findProto, run_bind, h.run_findAmong hg hlayout hp]
  simp only [hlevel]
  rw [findSome?_ite fun _ _ _ => rfl, ← Cache.nearest?]
  cases c.nearest? (view s) p name <;> rfl

/-- What the directory for prototypes of a level has for a name. -/
theorem lookupEntry_references {t : Tree} {dir showRoot : Place} {n : Name}
    (hplain : '\\' ∉ n.chars) (hmeta : n ≠ metaName) :
    lookupEntry n.text ((c.ownDirs t dir).flatMap (t.references showRoot)) =
      if c.holdsProto t dir n.text then reference? showRoot (Place.entry dir.protoDir n).path
      else none := by
  have hlisted : n.text ∈ (t.names dir.protoDir.path.key).filter (· != Layout.default.metaDir) ↔
      t.present (Place.entry dir.protoDir n).path = true := by
    have hname : n.text ≠ Layout.default.metaDir := fun he =>
      hmeta (Name.chars_injective (congrArg String.toList he))
    have hlast : ∀ m ∈ dir.protoDir.names.getLast?, '\\' ∉ m.chars := by
      intro m hm
      obtain rfl : Layout.protoName = m := by simpa [Place.protoDir, Place.names] using hm
      decide
    rw [List.mem_filter, Tree.mem_names_iff hlast hplain]
    simp [hname]
  rw [Cache.holdsProto, Cache.ownDirs]
  cases c.isDirAt dir && t.isDir dir.protoDir.path with
  | false => rfl
  | true =>
    rw [if_pos rfl, List.flatMap_singleton, Bool.true_and, Tree.references,
      Dictionary.lookupEntry_filterMap fun name => reference? showRoot (dir.protoDir.path.join name)]
    exact if_congr hlisted rfl rfl

/-- A prototype is listed by the reference of what is at the nearest level that holds its name. -/
theorem run_listProtos (h : Truthful view) (hg : Grown c.nodes) (hlayout : c.layout = .default)
    {d showRoot : Place} (hdir : c.isDirAt d = true) (hshow : c.showAt d = some showRoot) :
    ∃ list, ((Cache.listProtos d : Work (StateM σ) _).run.run c).run s = ((.ok list, c), s) ∧
      ∀ n : Name, '\\' ∉ n.chars → n ≠ metaName → list.get? n.text =
        (c.nearest? (view s) d n.text).bind fun dir =>
          reference? showRoot (Place.entry dir.protoDir n).path := by
  have hmet := (hg.showAt_mem_upward hshow).1
  have hgather : ((Work.gather (fun path => do
      let names ← (Cache.listVisible path : Work (StateM σ) _)
      pure (names.filterMap fun name => (reference? showRoot (path.join name)).map (name, ·)))
      ((c.levels d).flatMap (c.ownDirs (view s)))).run.run c).run s =
      ((.ok (((c.levels d).flatMap (c.ownDirs (view s))).flatMap ((view s).references showRoot)), c),
        s) := by
    refine run_gather fun path hpath => ?_
    obtain ⟨dir, -, hdir⟩ := List.mem_flatMap.1 hpath
    rw [Cache.ownDirs] at hdir
    split at hdir
    · rename_i hopen
      obtain rfl := List.mem_singleton.1 hdir
      rw [run_bind, h.run_listVisible (Bool.and_eq_true_iff.1 hopen).2, hlayout]
      rfl
    · cases hdir
  refine ⟨(((c.levels d).flatMap (c.ownDirs (view s))).flatMap
    ((view s).references showRoot)).foldl (fun d e => d.insertNew e.1 e.2) ∅, ?_,
    fun n hplain hmeta => ?_⟩
  · rw [Cache.listProtos, run_bind, run_get]
    dsimp only
    rw [run_bind, run_get]
    dsimp only
    rw [if_pos hdir, hshow]
    dsimp only
    rw [run_bind, h.run_protoDirs hg hlayout hmet]
    dsimp only
    rw [run_bind, hgather]
    rfl
  · have hempty : (∅ : Dictionary String).get? n.text = none := rfl
    rw [Dictionary.get?_foldl_insertNew, hempty, Option.none_or, List.flatMap_assoc,
      Dictionary.lookupEntry_flatMap]
    simp only [lookupEntry_references hplain hmeta]
    exact findSome?_ite fun dir hlevel _ => hg.isSome_reference?_of_level hshow hlevel n

end Truthful

/-! ## 3. Agreement -/

namespace Cache

/-- A plain name is listed from a directory in a show exactly if it can be found from there, and
what is listed is a reference that leads from the directory to what is found. -/
theorem listProtos_findProto_agree {c : Cache} (hc : Reachable Tree c)
    (hlayout : c.layout = .default) {d : Place} (hdir : c.isDirAt d = true)
    (hshow : (c.showAt d).isSome) (t : Tree) :
    ∃ list, ((listProtos d : Work (StateM Tree) _).run.run c).run t = ((.ok list, c), t) ∧
      ∀ n : Name, '\\' ∉ n.chars → n ≠ metaName →
        ∃ answer, ((findProto d n.text : Work (StateM Tree) Path).run.run c).run t =
            ((answer, c), t) ∧
          ((list.get? n.text).isSome ↔ ∃ path, answer = .ok path) ∧
          ∀ reference, list.get? n.text = some reference →
            ∃ place, c.resolveReference reference d = .ok place ∧ answer = .ok place.path := by
  obtain ⟨showRoot, hshow⟩ := Option.isSome_iff_exists.1 hshow
  have hmet := (hc.grown.showAt_mem_upward hshow).1
  obtain ⟨list, hlist, hget⟩ := truthful_tree.run_listProtos (s := t) hc.grown hlayout hdir hshow
  refine ⟨list, hlist, fun n hplain hmeta => ⟨_, truthful_tree.run_findProto hc.grown hlayout hmet
    n.text, ?_⟩⟩
  rw [hget n hplain hmeta]
  cases hnearest : c.nearest? t d n.text with
  | none => simp
  | some dir =>
    have hlevel := List.mem_of_find?_eq_some hnearest
    have hsome := hc.grown.isSome_reference?_of_level hshow hlevel n
    refine ⟨⟨fun _ => ⟨_, rfl⟩, fun _ => hsome⟩, fun reference href => ?_⟩
    exact ⟨_, resolveReference_reference hshow href, rfl⟩

/-- What is found by name from the inner of two levels. -/
def foundInside (name : Name) : (Except Failure Path × Cache) × Tree :=
  ((findProto innerLevel name.text : Work (StateM Tree) Path).run.run twoLevelsCache).run twoLevels

/-- A prototype that is two levels up is listed from the inner level, and its reference leads to
what is found. -/
theorem listProtos_findProto_agree_levels :
    ∃ list reference place, (((listProtos innerLevel : Work (StateM Tree) _).run.run
        twoLevelsCache).run twoLevels).1.1 = .ok list ∧
      list.get? "b_c.d" = some reference ∧
      twoLevelsCache.resolveReference reference innerLevel = .ok place ∧
      (foundInside ⟨"b_c.d", by decide⟩).1.1 = .ok place.path := by
  have hreach : Reachable Tree twoLevelsCache := (Reachable.empty .default .root).deed _ _
  obtain ⟨hlayout, hdir, hshow, hfound⟩ :
      twoLevelsCache.layout = .default ∧ twoLevelsCache.isDirAt innerLevel = true ∧
      (twoLevelsCache.showAt innerLevel).isSome = true ∧
      (foundInside ⟨"b_c.d", by decide⟩).1.1.toOption.isSome = true := by decide +kernel
  obtain ⟨path, hpath⟩ := exists_eq_ok hfound
  obtain ⟨list, hlist, hall⟩ := listProtos_findProto_agree hreach hlayout hdir hshow twoLevels
  obtain ⟨answer, hrun, hiff, hleads⟩ := hall ⟨"b_c.d", by decide⟩ (by decide) (by decide)
  have hanswer : (foundInside ⟨"b_c.d", by decide⟩).1.1 = answer := by rw [foundInside, hrun]
  have hok : answer = .ok path := by rw [← hanswer, hpath]
  obtain ⟨reference, href⟩ := Option.isSome_iff_exists.1 (hiff.2 ⟨path, hok⟩)
  obtain ⟨place, hplace, hfinds⟩ := hleads reference href
  exact ⟨list, reference, place, by rw [hlist], href, hplace, by rw [hanswer, hfinds]⟩

end Cache

end ShowTree
