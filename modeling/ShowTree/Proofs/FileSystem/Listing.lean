/-
ShowTree.Proofs.FileSystem.Listing — what a directory lists.

The keys of all that is below a directory start with the same text. Of two texts in rising order,
the first starts with it if the second does, unless it is less than that text
(`prefix_of_lt_of_prefix`). So these keys stand together, whatever other keys there are, and the
walk along them leaves none out (`Tree.keysBelow_eq_filter`). What is listed is what is directly
inside the directory, each name once and in rising order (`Tree.list_children`).
-/
import ShowTree.Proofs.Dictionary
import ShowTree.Proofs.FileSystem.Change

namespace ShowTree

/-! ## 1. Keys of children -/

theorem rest?_eq_some_iff {front cs back : List Char} :
    rest? front cs = some back ↔ cs = front ++ back := by
  induction front generalizing cs with
  | nil => simp [rest?]
  | cons c front ih =>
    cases cs with
    | nil => simp [rest?]
    | cons d cs =>
      rw [rest?, List.cons_append, List.cons.injEq, eq_comm (a := d)]
      split
      · rename_i hc
        simp [hc, ih]
      · rename_i hc
        simp [hc]

theorem childName?_eq_some_iff {dir key name : String} :
    childName? dir key = some name ↔
      key.toList = childFront dir ++ name.toList ∧ '/' ∉ name.toList ∧ name.toList ≠ [] := by
  unfold childName?
  split
  · rename_i hrest
    constructor
    · intro h
      cases h
    · rintro ⟨hkey, -, -⟩
      rw [rest?_eq_some_iff.2 hkey] at hrest
      cases hrest
  · rename_i hrest
    constructor
    · intro h
      cases h
    · rintro ⟨hkey, -, hne⟩
      rw [rest?_eq_some_iff.2 hkey] at hrest
      exact absurd (Option.some.inj hrest) hne
  · rename_i back hne hrest
    have hback := rest?_eq_some_iff.1 hrest
    split
    · rename_i hslash
      constructor
      · intro h
        cases h
      · rintro ⟨hkey, hname, -⟩
        rw [hback] at hkey
        exact absurd (List.append_cancel_left hkey ▸ hslash) hname
    · rename_i hslash
      rw [Option.some.injEq, hback]
      constructor
      · rintro rfl
        rw [String.toList_ofList]
        exact ⟨rfl, hslash, hne⟩
      · rintro ⟨hkey, -, -⟩
        rw [List.append_cancel_left hkey, String.ofList_toList]

/-! ## 2. Texts that start the same way -/

theorem lt_of_append_left_lt {front cs ds : List Char} (h : front ++ cs < front ++ ds) :
    cs < ds := by
  induction front with
  | nil => exact h
  | cons c front ih =>
    rcases List.cons_lt_cons_iff.1 h with hlt | ⟨-, hlt⟩
    · exact absurd hlt (Char.lt_irrefl c)
    · exact ih hlt

/-- Between a text and one that starts with it, every text starts with it. -/
theorem prefix_of_lt_of_prefix {front cs ds : List Char} (hcs : ¬ cs < front) (hlt : cs < ds)
    (hds : front <+: ds) : front <+: cs := by
  induction front generalizing cs ds with
  | nil => exact List.nil_prefix
  | cons c front ih =>
    obtain ⟨rest, rfl⟩ := hds
    cases cs with
    | nil => exact absurd (List.nil_lt_cons c front) hcs
    | cons d cs =>
      rw [List.cons_lt_cons_iff, not_or, not_and] at hcs
      rw [List.cons_append, List.cons_lt_cons_iff] at hlt
      obtain hless | ⟨rfl, hless⟩ := hlt
      · exact absurd hless hcs.1
      exact List.cons_prefix_cons.2 ⟨rfl, ih (hcs.2 rfl) hless (List.prefix_append front rest)⟩

section Stretches

variable {α : Type} {early here : α → Bool}

/-- Where nothing is taken after the first that is not, taking the first ones is taking all. -/
theorem takeWhile_eq_filter {l : List α}
    (h : l.Pairwise fun a b => here a = false → here b = false) :
    l.takeWhile here = l.filter here := by
  induction l with
  | nil => rfl
  | cons a l ih =>
    obtain ⟨ha, hl⟩ := List.pairwise_cons.1 h
    cases hhere : here a with
    | true => rw [List.takeWhile_cons_of_pos hhere, List.filter_cons_of_pos hhere, ih hl]
    | false =>
      have hnone : l.filter here = [] := List.filter_eq_nil_iff.2 fun b hb => by
        simp [ha b hb hhere]
      rw [List.takeWhile_cons_of_neg (by simp [hhere]), List.filter_cons_of_neg (by simp [hhere]),
        hnone]

/-- In a list in order, those that come after the early ones and before all others are a
stretch of it. -/
theorem takeWhile_dropWhile_eq_filter {r : α → α → Prop}
    (hearly : ∀ a, early a = true → here a = false)
    (hlate : ∀ a b, r a b → early a = false → early b = false)
    (hend : ∀ a b, r a b → early a = false → here a = false → here b = false) {l : List α}
    (h : l.Pairwise r) : (l.dropWhile early).takeWhile here = l.filter here := by
  induction l with
  | nil => rfl
  | cons a l ih =>
    obtain ⟨ha, hl⟩ := List.pairwise_cons.1 h
    cases hfirst : early a with
    | true =>
      rw [List.dropWhile_cons_of_pos hfirst, ih hl,
        List.filter_cons_of_neg (by simp [hearly a hfirst])]
    | false =>
      rw [List.dropWhile_cons_of_neg (by simp [hfirst])]
      refine takeWhile_eq_filter (h.imp_of_mem fun {b d} hb _ hbd => hend b d hbd ?_)
      rcases List.mem_cons.1 hb with rfl | hb
      · exact hfirst
      · exact hlate a b (ha b hb) hfirst

end Stretches

/-! ## 3. Listings -/

namespace Tree

/-- The walk along the keys below a directory finds all of them. -/
theorem keysBelow_eq_filter (t : Tree) (dir : String) :
    t.keysBelow dir = t.entries.keys.filter fun key => (childFront dir).isPrefixOf key.toList := by
  have hearly : ∀ key : String, decide (key < String.ofList (childFront dir)) = true →
      (childFront dir).isPrefixOf key.toList = false := by
    intro key hlt
    rw [decide_eq_true_eq, String.lt_iff, String.toList_ofList] at hlt
    refine Bool.eq_false_iff.2 fun hprefix => ?_
    exact (List.isPrefixOf_iff_prefix.1 hprefix).le hlt
  refine takeWhile_dropWhile_eq_filter (r := (· < ·)) hearly ?_ ?_
    (List.pairwise_map.2 t.entries.rising)
  · intro key key' hlt hlate
    rw [decide_eq_false_iff_not] at hlate ⊢
    exact fun hlt' => hlate (String.lt_trans hlt hlt')
  · intro key key' hlt hlate hhere
    rw [decide_eq_false_iff_not, String.lt_iff, String.toList_ofList] at hlate
    refine Bool.eq_false_iff.2 fun hprefix => ?_
    have hbetween := prefix_of_lt_of_prefix hlate (String.lt_iff.1 hlt)
      (List.isPrefixOf_iff_prefix.1 hprefix)
    rw [List.isPrefixOf_iff_prefix.2 hbetween] at hhere
    cases hhere

/-- What is listed are the children that are there. -/
theorem mem_names {t : Tree} {dir name : String} :
    name ∈ t.names dir ↔ ∃ key ∈ t.entries.keys, childName? dir key = some name := by
  rw [names, keysBelow_eq_filter, List.mem_filterMap]
  refine exists_congr fun key => ?_
  rw [List.mem_filter, List.isPrefixOf_iff_prefix]
  refine ⟨fun h => ⟨h.1.1, h.2⟩, fun h => ⟨⟨h.1, name.toList, ?_⟩, h.2⟩⟩
  exact (childName?_eq_some_iff.1 h.2).1.symm

/-- Names are listed in strictly rising order. -/
theorem pairwise_names (t : Tree) (dir : String) : (t.names dir).Pairwise (· < ·) := by
  have hkeys : (t.keysBelow dir).Pairwise (· < ·) := by
    rw [keysBelow_eq_filter]
    exact (List.pairwise_map.2 t.entries.rising).filter _
  refine hkeys.filterMap _ ?_
  intro key key' hlt name hname name' hname'
  obtain ⟨hkey, -⟩ := childName?_eq_some_iff.1 hname
  obtain ⟨hkey', -⟩ := childName?_eq_some_iff.1 hname'
  rw [String.lt_iff, hkey, hkey'] at hlt
  exact String.lt_iff.2 (lt_of_append_left_lt hlt)

/-- What is directly inside a directory is what is listed: the names, which are not empty and have
no slash, that come after the key of the directory and a slash in the keys of the tree. Each is
listed once, and in rising order. -/
theorem list_children {t : Tree} {d : Path} (h : t.get? d.key = some .dir) :
    ∃ names, t.list d = .ok names ∧ names.Pairwise (· < ·) ∧
      ∀ n : String, n ∈ names ↔ n ≠ "" ∧ '/' ∉ n.toList ∧
        (t.get? ((if d.key = "/" then "/" else d.key ++ "/") ++ n)).isSome := by
  have hlist : t.list d = .ok (t.names d.key) := by
    rw [list, show t.entry? d = some .dir from h]
  refine ⟨t.names d.key, hlist, t.pairwise_names d.key, fun n => ?_⟩
  have hfront : ((if d.key = "/" then "/" else d.key ++ "/") ++ n).toList =
      childFront d.key ++ n.toList := by
    rw [childFront]
    split <;> simp
  have hempty : n.toList ≠ [] ↔ n ≠ "" := by
    rw [ne_eq, ne_eq, String.toList_eq_nil_iff]
  rw [mem_names]
  constructor
  · rintro ⟨key, hkey, hchild⟩
    obtain ⟨hchars, hslash, hne⟩ := childName?_eq_some_iff.1 hchild
    rw [← hfront] at hchars
    refine ⟨hempty.1 hne, hslash, ?_⟩
    rw [← String.toList_injective hchars]
    exact Dictionary.mem_keys_iff.1 hkey
  · rintro ⟨hne, hslash, hthere⟩
    exact ⟨_, Dictionary.mem_keys_iff.2 hthere,
      childName?_eq_some_iff.2 ⟨hfront, hslash, hempty.2 hne⟩⟩

/-- For instance between keys that start like that of the directory, and with a key that would
be a child without a name. -/
theorem list_children_neighbours :
    let t : Tree := ⟨.ofList [("/d", .dir), ("/d-x", .dir), ("/d/", .dir), ("/d//c", .dir),
      ("/d/a", .dir), ("/d/a/b", .dir), ("/d/b.txt", .file .empty), ("/dd", .dir)]⟩
    let d : Path := ⟨"\\d//"⟩
    t.get? d.key = some .dir ∧ t.list d = .ok ["a", "b.txt"] ∧
      ∀ n : String, n ∈ ["a", "b.txt"] ↔ n ≠ "" ∧ '/' ∉ n.toList ∧
        (t.get? ((if d.key = "/" then "/" else d.key ++ "/") ++ n)).isSome := by
  intro t d
  have hkey : d.key = "/d" := by decide +kernel
  have hdir : t.get? d.key = some .dir := by
    rw [hkey]
    rfl
  have hlist : t.list d = .ok ["a", "b.txt"] := by
    have hnames : t.names "/d" = ["a", "b.txt"] := by decide +kernel
    rw [list, show t.entry? d = some .dir from hdir, hkey, hnames]
  obtain ⟨names, hnames, -, hmem⟩ := list_children hdir
  obtain rfl : names = ["a", "b.txt"] := Except.ok.inj (hnames.symm.trans hlist)
  exact ⟨hdir, hlist, hmem⟩

end Tree

end ShowTree
