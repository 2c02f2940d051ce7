/-
ShowTree.Proofs.FileSystem.Building — which updates keep a file system in memory a tree.

A file system in memory starts as its root and is built by updates, of which those that fail
change nothing. Writing a file, making a directory and moving a file ask for a directory
above, so they keep it a tree. Making a directory with all that is missing above it asks for
nothing: where one of the places above is a file, the file stays, and what is made below it
has no directory to lie in. This is the only way in which the entries cease to be a tree
(`isTree_after_iff` for one update, `isTree_build_iff` for all states on the way).
-/
import Mathlib.Data.List.Induction
import ShowTree.Proofs.FileSystem.WellFormed

namespace ShowTree

/-! ## 1. Keys of the directories above -/

theorem keysAbove_append (before xs ys : List Char) :
    keysAbove before (xs ++ ys) = keysAbove before xs ++ keysAbove (xs.reverse ++ before) ys := by
  induction xs generalizing before with
  | nil => rfl
  | cons c xs ih =>
    rw [List.cons_append, keysAbove, keysAbove, ih]
    split <;> simp

theorem keysAbove_of_not_mem {cs : List Char} (h : '/' ∉ cs) (before : List Char) :
    keysAbove before cs = [] := by
  induction cs generalizing before with
  | nil => rfl
  | cons c cs ih =>
    rw [List.mem_cons, not_or] at h
    rw [keysAbove, if_neg (Ne.symm h.1), ih h.2]

namespace Place

/-- The directory of a place on the way up is strictly above. -/
theorem mem_tail_upward_of_entry {dir : Place} {name : Name} :
    ∀ {p : Place}, entry dir name ∈ p.upward → dir ∈ p.upward.tail
  | .root, h => by simp [upward] at h
  | .entry above n, h => by
    rw [upward, List.tail_cons]
    rcases List.mem_cons.1 h with heq | h
    · rw [(entry.inj heq).1]
      exact above.self_mem_upward
    · exact List.mem_of_mem_tail (mem_tail_upward_of_entry h)

/-- The text of a path from the characters before its next slash. -/
theorem text_path_eq_stem (p : Place) :
    p.path.text = if p.stem = [] then "/" else String.ofList p.stem := by
  cases p with
  | root => rfl
  | entry dir name =>
    rw [if_neg (stem_entry_ne_nil dir name), stem, ← toList_path_entry, String.ofList_toList]

theorem keysAbove_stem : ∀ p : Place, keysAbove [] p.stem = (p.upward.tail.map (·.path.text)).reverse
  | .root => rfl
  | .entry dir name => by
    have habove : dir.upward = dir :: dir.upward.tail := by cases dir <;> rfl
    have hstem : (if dir.stem.reverse.isEmpty then "/" else String.ofList dir.stem.reverse.reverse) =
        dir.path.text := by
      rw [text_path_eq_stem, List.reverse_reverse]
      simp
    rw [stem, keysAbove_append, keysAbove_stem dir, List.append_nil, keysAbove, if_pos rfl,
      keysAbove_of_not_mem name.slash_not_mem_chars, hstem, upward, List.tail_cons, habove,
      List.map_cons, List.reverse_cons, ← habove]

/-- The keys above the key of a place, and this key, are those of the places on its way up. -/
theorem mem_keysAbove_iff {p : Place} (h : p.Plain) {key : String} :
    (key = p.path.key ∨ key ∈ keysAbove [] p.path.key.toList) ↔ ∃ q ∈ p.upward, q.path.key = key := by
  have hup : (∃ q ∈ p.upward, q.path.key = key) ↔
      key = p.path.key ∨ ∃ q ∈ p.upward.tail, q.path.key = key := by
    have hcons : p.upward = p :: p.upward.tail := by cases p <;> rfl
    rw [hcons, List.tail_cons]
    simp [eq_comm]
  rw [hup]
  cases p with
  | root =>
    have hroot : keysAbove [] root.path.key.toList = [root.path.key] := by decide
    simp [hroot, upward]
  | entry dir name =>
    have hkey : (entry dir name).path.key.toList = (entry dir name).stem := by
      rw [key_path h, toList_path_entry, stem]
    rw [hkey, keysAbove_stem, List.mem_reverse, List.mem_map]
    refine or_congr_right (exists_congr fun q => and_congr_right fun hq => ?_)
    rw [key_path (h.of_mem_upward (List.mem_of_mem_tail hq))]

/-- The directory above an entry, as told from its key. -/
theorem dirKey?_path_entry {dir : Place} {name : Name} (h : (entry dir name).Plain) :
    dirKey? (entry dir name).path.key = some dir.path.key := by
  have hdir : dir.Plain := h.up
  have hlist : (entry dir name).path.key.toList = dir.stem ++ '/' :: name.chars := by
    rw [key_path h, toList_path_entry]
  rw [dirKey?_eq hlist name.slash_not_mem_chars name.chars_ne_nil, key_path hdir,
    text_path_eq_stem]

theorem Plain.canonicalKey {p : Place} (h : p.Plain) : Tree.CanonicalKey p.path.key := by
  rw [key_path h]
  exact ⟨p, ofPath?_path p, rfl, h⟩

end Place

/-- Above what is there, all are directories. -/
theorem Tree.WellFormed.kind?_of_above {t : Tree} (h : t.WellFormed) {p q : Place} (hp : p.Plain)
    (hthere : (t.get? p.path.key).isSome) (hq : q ∈ p.upward.tail) :
    t.kind? q.path.key = some true := by
  induction p with
  | root => simp [Place.upward] at hq
  | entry dir name ih =>
    have hdir := h.kind?_of_entry (hp name (by simp [Place.names])) hthere
    have hcons : dir.upward = dir :: dir.upward.tail := by cases dir <;> rfl
    rw [Place.upward, List.tail_cons, hcons] at hq
    rcases List.mem_cons.1 hq with rfl | hq
    · exact hdir
    · exact ih hp.up (isSome_of_kind? hdir) hq

/-! ## 2. Making directories all the way -/

namespace Dictionary

variable {β : Type}

/-- Keys that are put in with the same value. -/
theorem get?_foldl_insertNew_keys (keys : List String) (d : Dictionary β) (k : String) (value : β) :
    (keys.foldl (fun d key => d.insertNew key value) d).get? k =
      if k ∈ keys then some ((d.get? k).getD value) else d.get? k := by
  have hentries : keys.foldl (fun d key => d.insertNew key value) d =
      (keys.filterMap fun key => (some value).map (key, ·)).foldl
        (fun d e => d.insertNew e.1 e.2) d := by
    have hmap : keys.filterMap (fun key => (some value).map (key, ·)) = keys.map (·, value) :=
      congrFun List.filterMap_eq_map keys
    rw [hmap, List.foldl_map]
  rw [hentries, get?_foldl_insertNew, lookupEntry_filterMap fun _ => some value]
  split <;> cases d.get? k <;> rfl

end Dictionary

namespace Tree

variable {t t' : Tree}

/-- What is on the way up is left as it is, or put in as a directory. -/
theorem get?_makeDirs {p : Place} (hp : p.Plain) (h : t.makeDirs p.path = .ok t') (k : String) :
    (∃ q ∈ p.upward, q.path.key = k) ∧ t'.get? k = some ((t.get? k).getD .dir) ∨
      (¬ ∃ q ∈ p.upward, q.path.key = k) ∧ t'.get? k = t.get? k := by
  unfold makeDirs at h
  split at h
  · cases h
  · rw [← Except.ok.inj h]
    rw [← Place.mem_keysAbove_iff hp, get?, Dictionary.get?_insertNew, withDirsAbove,
      Dictionary.get?_foldl_insertNew_keys]
    by_cases hself : k = p.path.key
    · subst hself
      refine .inl ⟨.inl rfl, ?_⟩
      rw [if_pos rfl]
      split
      · rw [Option.getD_some]
        rfl
      · rfl
    · rw [if_neg (Ne.symm hself)]
      by_cases habove : k ∈ keysAbove [] p.path.key.toList
      · exact .inl ⟨.inr habove, if_pos habove⟩
      · exact .inr ⟨not_or.2 ⟨hself, habove⟩, if_neg habove⟩

theorem kind?_makeDirs {p : Place} (hp : p.Plain) (h : t.makeDirs p.path = .ok t') {k : String}
    {isDir : Bool} (hk : t.kind? k = some isDir) : t'.kind? k = some isDir := by
  obtain ⟨e, he, hkind⟩ := Option.map_eq_some_iff.1 hk
  rw [kind?]
  rcases get?_makeDirs hp h k with ⟨-, hget⟩ | ⟨-, hget⟩
  · rw [hget, he, Option.getD_some, Option.map_some, hkind]
  · rw [hget, he, Option.map_some, hkind]

/-- A place on the way up is a directory afterwards, unless it was a file. -/
theorem kind?_makeDirs_above {p q : Place} (hp : p.Plain) (h : t.makeDirs p.path = .ok t')
    (hq : q ∈ p.upward) (hfile : t.kind? q.path.key ≠ some false) :
    t'.kind? q.path.key = some true := by
  cases hk : t.kind? q.path.key with
  | some isDir =>
    cases isDir with
    | true => exact kind?_makeDirs hp h hk
    | false => exact absurd hk hfile
  | none =>
    have hnone : t.get? q.path.key = none := Option.map_eq_none_iff.1 hk
    rcases get?_makeDirs hp h q.path.key with ⟨-, hget⟩ | ⟨hout, -⟩
    · rw [kind?, hget, hnone]
      rfl
    · exact absurd ⟨q, hq, rfl⟩ hout

theorem WellFormed.makeDirs (h : t.WellFormed) {p : Place} (hp : p.Plain)
    (hfile : ∀ q ∈ p.upward.tail, t.kind? q.path.key ≠ some false)
    (happly : t.makeDirs p.path = .ok t') : t'.WellFormed := by
  have hthere : ∀ k ∈ t'.entries.keys, k ∈ t.entries.keys ∨ ∃ q ∈ p.upward, q.path.key = k := by
    intro k hk
    rcases get?_makeDirs hp happly k with ⟨hup, -⟩ | ⟨-, hget⟩
    · exact .inr hup
    · have hsome : (t'.get? k).isSome := Dictionary.mem_keys_iff.1 hk
      rw [hget] at hsome
      exact .inl (Dictionary.mem_keys_iff.2 hsome)
  refine ⟨fun k hk => ?_, fun k hk above habove => ?_⟩
  · rcases hthere k hk with hold | ⟨q, hq, rfl⟩
    · exact h.canonical k hold
    · exact (hp.of_mem_upward hq).canonicalKey
  · rcases hthere k hk with hold | ⟨q, hq, rfl⟩
    · exact kind?_makeDirs hp happly (h.inDir k hold above habove)
    · cases q with
      | root =>
        have hnone : dirKey? Place.root.path.key = none := by decide
        rw [hnone] at habove
        cases habove
      | entry dir name =>
        rw [Place.dirKey?_path_entry (hp.of_mem_upward hq)] at habove
        obtain rfl := Option.some.inj habove
        have hdir : dir ∈ p.upward.tail := Place.mem_tail_upward_of_entry hq
        exact kind?_makeDirs_above hp happly (List.mem_of_mem_tail hdir) (hfile dir hdir)

/-! ## 3. Trees -/

/-- The root is a directory, and every other entry lies in one. -/
structure IsTree (t : Tree) : Prop where
  root : t.kind? "/" = some true
  inDir : ∀ key ∈ t.entries.keys, key ≠ "/" →
    ∃ above, dirKey? key = some above ∧ t.kind? above = some true

/-- Among canonical keys, entries form a tree exactly in a well-formed tree with a root. -/
theorem isTree_iff (hcanonical : ∀ key ∈ t.entries.keys, CanonicalKey key) :
    t.IsTree ↔ t.WellFormed ∧ t.kind? "/" = some true := by
  constructor
  · intro h
    refine ⟨⟨hcanonical, fun key hkey above habove => ?_⟩, h.root⟩
    have hroot : key ≠ "/" := by
      rintro rfl
      cases habove
    obtain ⟨dir, hdir, hkind⟩ := h.inDir key hkey hroot
    rw [Option.mem_def, hdir] at habove
    exact Option.some.inj habove ▸ hkind
  · rintro ⟨hwell, hroot⟩
    refine ⟨hroot, fun key hkey hne => ?_⟩
    obtain ⟨p, hplain, htext⟩ := hwell.exists_place (Dictionary.mem_keys_iff.1 hkey)
    cases p with
    | root => exact absurd htext.symm hne
    | entry dir name =>
      rw [← Place.key_path hplain] at htext
      have habove := Place.dirKey?_path_entry hplain
      rw [htext] at habove
      exact ⟨dir.path.key, habove, hwell.inDir key hkey _ habove⟩

/-! ## 4. Updates -/

/-- A call that changes a tree, at canonical paths. -/
inductive Update where
  | write (p : Place) (content : ByteArray)
  | makeDir (p : Place)
  | makeDirs (p : Place)
  | rename (source target : Place)

namespace Update

def apply : Update → Tree → Except FileError Tree
  | write p content, t => t.write p.path content
  | makeDir p, t => t.makeDir p.path
  | makeDirs p, t => t.makeDirs p.path
  | rename source target, t => t.rename source.path target.path

/-- The tree after a call, which is the same tree if the call failed. -/
def after (u : Update) (t : Tree) : Tree :=
  (Tree.change u.apply t).2

/-- The places that a call names. -/
def places : Update → List Place
  | write p _ => [p]
  | makeDir p => [p]
  | makeDirs p => [p]
  | rename source target => [source, target]

/-- The call makes directories below a file. -/
def ThroughFile (t : Tree) : Update → Prop
  | makeDirs p => ∃ q ∈ p.upward.tail, t.kind? q.path.key = some false
  | _ => False

/-- A call fails and changes nothing, or is made. -/
theorem after_cases (u : Update) (t : Tree) :
    (∃ e, u.apply t = .error e) ∧ u.after t = t ∨ u.apply t = .ok (u.after t) := by
  rw [after, Tree.change]
  cases h : u.apply t with
  | error e => exact .inl ⟨⟨e, rfl⟩, rfl⟩
  | ok t' => exact .inr rfl

/-- What a call puts in is on the way up from a place that it names. -/
theorem of_isSome_after {u : Update} (hplain : ∀ p ∈ u.places, p.Plain) {key : String}
    (h : ((u.after t).get? key).isSome) :
    (t.get? key).isSome ∨ ∃ p ∈ u.places, ∃ q ∈ p.upward, q.path.key = key := by
  have hput : ∀ {p : Place} {found : Option Entry}, p ∈ u.places →
      (if p.path.key = key then found else t.get? key).isSome →
      (t.get? key).isSome ∨ ∃ p ∈ u.places, ∃ q ∈ p.upward, q.path.key = key := by
    intro p found hp hsome
    split at hsome
    · rename_i hkey
      exact .inr ⟨p, hp, p, p.self_mem_upward, hkey⟩
    · exact .inl hsome
  rcases u.after_cases t with ⟨-, hsame⟩ | hmade
  · exact .inl (hsame ▸ h)
  · cases u with
    | write p content =>
      rw [apply] at hmade
      rw [(get?_write hmade).2] at h
      exact hput List.mem_cons_self h
    | makeDir p =>
      rw [apply] at hmade
      rw [(get?_makeDir hmade).2] at h
      exact hput List.mem_cons_self h
    | makeDirs p =>
      rw [apply] at hmade
      rcases get?_makeDirs (hplain p List.mem_cons_self) hmade key with ⟨hup, -⟩ | ⟨-, hget⟩
      · exact .inr ⟨p, List.mem_cons_self, hup⟩
      · exact .inl (hget ▸ h)
    | rename source target =>
      rw [apply] at hmade
      obtain ⟨content, -, -, hget⟩ := get?_rename hmade
      rw [hget] at h
      split at h
      · rename_i hkey
        exact .inr ⟨target, by simp [places], target, target.self_mem_upward, hkey⟩
      · split at h
        · cases h
        · exact .inl h

theorem canonical_after {u : Update} (hplain : ∀ p ∈ u.places, p.Plain)
    (h : ∀ key ∈ t.entries.keys, CanonicalKey key) :
    ∀ key ∈ (u.after t).entries.keys, CanonicalKey key := by
  intro key hkey
  rcases of_isSome_after hplain (Dictionary.mem_keys_iff.1 hkey) with hold | ⟨p, hp, q, hq, rfl⟩
  · exact h key (Dictionary.mem_keys_iff.2 hold)
  · exact ((hplain p hp).of_mem_upward hq).canonicalKey

/-- No call takes the root away, where it is a directory. -/
theorem root_after {u : Update} (hplain : ∀ p ∈ u.places, p.Plain)
    (h : t.kind? "/" = some true) : (u.after t).kind? "/" = some true := by
  rcases u.after_cases t with ⟨-, hsame⟩ | hmade
  · rw [hsame]
    exact h
  · cases u with
    | write p content =>
      rw [apply] at hmade
      exact kind?_write hmade h
    | makeDir p =>
      rw [apply] at hmade
      exact kind?_makeDir hmade h
    | makeDirs p =>
      rw [apply] at hmade
      exact kind?_makeDirs (hplain p List.mem_cons_self) hmade h
    | rename source target =>
      rw [apply] at hmade
      obtain ⟨content, hsource, -, -⟩ := get?_rename hmade
      refine kind?_rename hmade (fun hkey => ?_) h
      rw [← hkey, kind?, hsource] at h
      cases h

theorem wellFormed_after {u : Update} (hplain : ∀ p ∈ u.places, p.Plain) (h : t.WellFormed)
    (hfile : ¬ u.ThroughFile t) : (u.after t).WellFormed := by
  rcases u.after_cases t with ⟨-, hsame⟩ | hmade
  · rw [hsame]
    exact h
  · cases u with
    | write p content =>
      rw [apply] at hmade
      exact h.write (hplain p List.mem_cons_self).canonicalKey hmade
    | makeDir p =>
      rw [apply] at hmade
      exact h.makeDir (hplain p List.mem_cons_self).canonicalKey hmade
    | makeDirs p =>
      rw [apply] at hmade
      exact h.makeDirs (hplain p List.mem_cons_self) (fun q hq hk => hfile ⟨q, hq, hk⟩) hmade
    | rename source target =>
      rw [apply] at hmade
      exact h.rename (hplain target (by simp [places])).canonicalKey hmade

/-- Where a file is above, directories are made below it all the same, and have no directory
to lie in. -/
theorem not_wellFormed_after {u : Update} (hplain : ∀ p ∈ u.places, p.Plain) (h : t.WellFormed)
    (hfile : u.ThroughFile t) : ¬ (u.after t).WellFormed := by
  cases u with
  | makeDirs p =>
    obtain ⟨q, hq, hkind⟩ := hfile
    have hp : p.Plain := hplain p List.mem_cons_self
    -- below a file there is nothing, so nothing keeps the call from being made
    have hmade : t.makeDirs p.path = .ok ((makeDirs p).after t) := by
      rcases (makeDirs p).after_cases t with ⟨⟨e, hfailed⟩, -⟩ | hmade
      · have hthere : (t.get? p.path.key).isSome := by
          rw [apply, Tree.makeDirs] at hfailed
          split at hfailed
          · rename_i hisFile
            rw [Tree.isFile] at hisFile
            split at hisFile
            · rename_i hget
              rw [get?, show t.entries.get? p.path.key = _ from hget]
              rfl
            · cases hisFile
          · cases hfailed
        rw [h.kind?_of_above hp hthere hq] at hkind
        cases hkind
      · exact hmade
    intro hwell
    have hthere : (((makeDirs p).after t).get? p.path.key).isSome := by
      rcases get?_makeDirs hp hmade p.path.key with ⟨-, hget⟩ | ⟨hout, -⟩
      · rw [hget]
        rfl
      · exact absurd ⟨p, p.self_mem_upward, rfl⟩ hout
    have hdir := hwell.kind?_of_above hp hthere hq
    rw [kind?_makeDirs hp hmade hkind] at hdir
    cases hdir
  | _ => exact hfile.elim

/-- A tree is one after a call exactly if the call makes no directories below a file. -/
theorem isTree_after_iff {u : Update} (hplain : ∀ p ∈ u.places, p.Plain)
    (hcanonical : ∀ key ∈ t.entries.keys, CanonicalKey key) (h : t.IsTree) :
    (u.after t).IsTree ↔ ¬ u.ThroughFile t := by
  have hwell := ((isTree_iff hcanonical).1 h).1
  rw [isTree_iff (canonical_after hplain hcanonical)]
  constructor
  · intro hafter hfile
    exact not_wellFormed_after hplain hwell hfile hafter.1
  · intro hfile
    exact ⟨wellFormed_after hplain hwell hfile, root_after hplain h.root⟩

end Update

/-! ## 5. Runs -/

/-- The tree that calls make of one with nothing but its root. -/
def build (updates : List Update) : Tree :=
  updates.foldl (fun t u => u.after t) new

theorem build_concat (updates : List Update) (u : Update) :
    build (updates ++ [u]) = u.after (build updates) :=
  List.foldl_append

theorem wellFormed_new : new.WellFormed ∧ new.kind? "/" = some true := by
  decide +kernel

theorem canonical_build {updates : List Update} (hplain : ∀ u ∈ updates, ∀ p ∈ u.places, p.Plain) :
    ∀ key ∈ (build updates).entries.keys, CanonicalKey key := by
  induction updates using List.reverseRecOn with
  | nil => exact wellFormed_new.1.canonical
  | append_singleton updates u ih =>
    rw [build_concat]
    exact Update.canonical_after (hplain u (by simp))
      (ih fun u' hu' => hplain u' (List.mem_append_left _ hu'))

/-- All states on the way are trees exactly if no call on the way makes directories below a
file. -/
theorem isTree_build_iff {updates : List Update} (hplain : ∀ u ∈ updates, ∀ p ∈ u.places, p.Plain) :
    (∀ made, made <+: updates → (build made).IsTree) ↔
      ∀ made u, made ++ [u] <+: updates → ¬ u.ThroughFile (build made) := by
  have hstep : ∀ {made : List Update} {u : Update}, made ++ [u] <+: updates →
      (build made).IsTree → ((build (made ++ [u])).IsTree ↔ ¬ u.ThroughFile (build made)) := by
    intro made u hmade htree
    have hmem : ∀ u' ∈ made ++ [u], ∀ p ∈ u'.places, p.Plain := fun u' hu' =>
      hplain u' (hmade.subset hu')
    rw [build_concat]
    exact Update.isTree_after_iff (hmem u (by simp))
      (canonical_build fun u' hu' => hmem u' (List.mem_append_left _ hu')) htree
  constructor
  · intro h made u hmade
    exact (hstep hmade (h made ((List.prefix_append made [u]).trans hmade))).1 (h _ hmade)
  · intro h made
    induction made using List.reverseRecOn with
    | nil => exact fun _ => (isTree_iff wellFormed_new.1.canonical).2 wellFormed_new
    | append_singleton made u ih =>
      intro hmade
      exact (hstep hmade (ih ((List.prefix_append made [u]).trans hmade))).2 (h made u hmade)

theorem isName_a : IsName "a" := by
  decide

/-- A place for runs: `/a`. -/
def placeA : Place :=
  .entry .root ⟨"a", isName_a⟩

/-- The place `/a/b`. -/
def placeAB : Place :=
  .entry placeA ⟨"b", by decide⟩

theorem isTree_build_iff_written :
    (build [.makeDirs placeA]).IsTree ∧ (build [.makeDirs placeA, .write placeAB .empty]).IsTree := by
  have hplain : ∀ u ∈ [Update.makeDirs placeA, .write placeAB .empty], ∀ p ∈ u.places, p.Plain := by
    decide
  have hbelow : ∀ made u, made ++ [u] <+: [Update.makeDirs placeA, .write placeAB .empty] →
      ¬ u.ThroughFile (build made) := by
    rintro made u ⟨rest, hrest⟩ hfile
    rcases made with _ | ⟨first, _ | ⟨second, made⟩⟩
    · obtain rfl : u = .makeDirs placeA := (List.cons.inj hrest).1
      obtain ⟨q, hq, hkind⟩ := hfile
      obtain rfl : q = .root := by simpa [placeA, Place.upward] using hq
      exact absurd hkind (by decide +kernel)
    · obtain rfl : u = .write placeAB .empty := (List.cons.inj (List.cons.inj hrest).2).1
      exact hfile
    · simp at hrest
  have htrees := (isTree_build_iff hplain).2 hbelow
  exact ⟨htrees [.makeDirs placeA] (List.prefix_append _ _), htrees _ (List.prefix_refl _)⟩

/-- With the file `/a` there, the directory `/a/b` is made, and lies in no directory. -/
theorem not_isTree_build_below :
    (∀ u ∈ [Update.write placeA .empty, .makeDirs placeAB], ∀ p ∈ u.places, p.Plain) ∧
      (build [.write placeA .empty, .makeDirs placeAB]).kind? "/a" = some false ∧
      (build [.write placeA .empty, .makeDirs placeAB]).kind? "/a/b" = some true ∧
      ¬ (build [.write placeA .empty, .makeDirs placeAB]).IsTree := by
  have hfile : (build [.write placeA .empty, .makeDirs placeAB]).kind? "/a" = some false := by
    decide +kernel
  refine ⟨by decide, hfile, by decide +kernel, fun h => ?_⟩
  obtain ⟨above, habove, hkind⟩ := h.inDir "/a/b" (by decide +kernel) (by decide)
  obtain rfl : "/a" = above := Option.some.inj habove
  rw [hfile] at hkind
  cases hkind

end Tree

end ShowTree
