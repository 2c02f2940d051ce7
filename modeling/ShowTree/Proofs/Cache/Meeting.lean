/-
ShowTree.Proofs.Cache.Meeting — what meeting an object adds to a cache.

The way down to an object falls into three parts: places that had been met, places whose nodes
are added now, and places that are left because something failed (`Meeting`). There is one rule
for each way in which a meeting goes on to a place below, so it holds of every object, whatever
the file system answers (`exists_meeting`). What failed is either the file system's answer about
one of the places that are left, before anything was added, or the record of the first of them
(`Stopped`). For the caches of a session and any path, `meetPath_adds` puts this together.
-/
import ShowTree.Proofs.Cache.Arena
import ShowTree.Proofs.Path.Clean

namespace ShowTree

/-! ## 1. What comes of meeting an object -/

/-- Why the objects at the places `left` have not been met, where nodes have been added for the
places `added`, both from the top down. -/
inductive Stopped (l : Layout) : (added left : List Place) → Failure → Prop
  /-- The file system did not describe one of them. It is asked before any node is added. -/
  | unknown {left : List Place} {p : Place} {e : FileError} (h : p ∈ left) :
      Stopped l [] left (.io p.path e)
  /-- The record of the first of them could not be read. -/
  | unread {added left : List Place} {p : Place} {isDir : Bool}
      {answer : Except FileError ByteArray} {e : Failure}
      (h : Cache.recordIn (l.recordPath p.path isDir) answer = .error e) :
      Stopped l added (p :: left) e

theorem Stopped.below {l : Layout} {added left : List Place} {e : Failure}
    (h : Stopped l added left e) (p : Place) : Stopped l added (left ++ [p]) e := by
  cases h with
  | unknown h => exact .unknown (List.mem_append_left [p] h)
  | unread h => exact .unread h

/-- What meeting the last object of a chain of places, each in the one before it, has made of a
cache. -/
structure Meeting (c : Cache) (chain : List Place) (r : Except Failure Unit) (c' : Cache)
    (met : List Place) (added : List Node) (left : List Place) : Prop where
  chain_eq : chain = met ++ (added.map Node.place ++ left)
  isSome_of_met : ∀ q ∈ met, (c.node? q).isSome
  eq_none_of_new : ∀ q ∈ added.map Node.place ++ left, c.node? q = none
  /-- Nodes are added after those that were there, and nothing else changes. -/
  cache_eq : c' = { c with nodes := c.nodes ++ added }
  /-- All of the chain has been met in the end, or something failed. -/
  left_eq_nil : r = .ok () → left = []
  stopped : ∀ e, r = .error e → left ≠ [] ∧ Stopped c.layout (added.map Node.place) left e

namespace Meeting

variable {c c' : Cache} {chain met left : List Place} {added : List Node} {p : Place}
variable {r : Except Failure Unit} {e : Failure}

/-- What was left has not been met, if all places of the chain differ. -/
theorem node?_of_mem_left (h : Meeting c chain r c' met added left) (hnodup : chain.Nodup)
    {q : Place} (hq : q ∈ left) : c'.node? q = none := by
  have hne : ∀ n ∈ added, n.place ≠ q := by
    rintro n hn rfl
    rw [h.chain_eq, List.nodup_append, List.nodup_append] at hnodup
    exact hnodup.2.1.2.2 _ (List.mem_map_of_mem hn) _ hq rfl
  have hnew := h.eq_none_of_new q (List.mem_append_right _ hq)
  rw [Cache.node?_eq_none_iff] at hnew ⊢
  intro n hn
  rw [h.cache_eq] at hn
  exact (List.mem_append.1 hn).elim (hnew n) (hne n)

/-- After a success all of the chain has been met. -/
theorem isSome_node? (h : Meeting c chain (.ok ()) c' met added left) {q : Place}
    (hq : q ∈ chain) : (c'.node? q).isSome := by
  rw [Cache.node?_isSome_iff, h.cache_eq]
  rw [h.chain_eq, h.left_eq_nil rfl, List.append_nil] at hq
  rcases List.mem_append.1 hq with hmet | hadded
  · obtain ⟨n, hn, hplace⟩ := Cache.node?_isSome_iff.1 (h.isSome_of_met q hmet)
    exact ⟨n, List.mem_append_left _ hn, hplace⟩
  · obtain ⟨n, hn, hplace⟩ := List.mem_map.1 hadded
    exact ⟨n, List.mem_append_right _ hn, hplace⟩

/-! ## 2. Down by one place -/

/-- All had been met. -/
theorem known (h : ∀ q ∈ chain, (c.node? q).isSome) : Meeting c chain (.ok ()) c chain [] [] where
  chain_eq := by simp
  isSome_of_met := h
  eq_none_of_new := by simp
  cache_eq := by simp
  left_eq_nil _ := rfl
  stopped := by simp

theorem chain_concat (h : Meeting c chain r c' met added left) (p : Place) :
    chain ++ [p] = met ++ (added.map Node.place ++ (left ++ [p])) := by
  rw [h.chain_eq, List.append_assoc, List.append_assoc]

theorem new_concat (h : Meeting c chain r c' met added left) (hp : c.node? p = none) :
    ∀ q ∈ added.map Node.place ++ (left ++ [p]), c.node? q = none := by
  intro q hq
  rw [← List.append_assoc] at hq
  rcases List.mem_append.1 hq with hq | hq
  · exact h.eq_none_of_new q hq
  · exact List.mem_singleton.1 hq ▸ hp

/-- The file system does not describe an object, so none is met of those above it either. -/
theorem unknown (h : Meeting c chain r c' met added left) (hp : c.node? p = none) (e : FileError) :
    Meeting c (chain ++ [p]) (.error (.io p.path e)) c met []
      (added.map Node.place ++ (left ++ [p])) where
  chain_eq := h.chain_concat p
  isSome_of_met := h.isSome_of_met
  eq_none_of_new := h.new_concat hp
  cache_eq := by simp
  left_eq_nil := by simp
  stopped := by
    rintro _ ⟨⟩
    exact ⟨by simp, .unknown (by simp)⟩

/-- The directory above an object could not be met. -/
theorem below (h : Meeting c chain (.error e) c' met added left) (hp : c.node? p = none) :
    Meeting c (chain ++ [p]) (.error e) c' met added (left ++ [p]) where
  chain_eq := h.chain_concat p
  isSome_of_met := h.isSome_of_met
  eq_none_of_new := h.new_concat hp
  cache_eq := h.cache_eq
  left_eq_nil := by simp
  stopped := by
    rintro _ ⟨⟩
    exact ⟨by simp, (h.stopped e rfl).2.below p⟩

/-- The record of an object could not be read. -/
theorem unread (h : Meeting c chain (.ok ()) c' met added left) (hp : c.node? p = none)
    {isDir : Bool} {answer : Except FileError ByteArray}
    (hrecord : Cache.recordIn (c'.layout.recordPath p.path isDir) answer = .error e) :
    Meeting c (chain ++ [p]) (.error e) c' met added [p] := by
  obtain rfl := h.left_eq_nil rfl
  have hlayout : c'.layout = c.layout := by rw [h.cache_eq]
  refine ⟨h.chain_concat p, h.isSome_of_met, h.new_concat hp, h.cache_eq, by simp, ?_⟩
  rintro _ ⟨⟩
  exact ⟨by simp, .unread (hlayout ▸ hrecord)⟩

/-- An object is met. -/
theorem add (h : Meeting c chain (.ok ()) c' met added left) (hp : c.node? p = none) (stat : Stat)
    (record : Record) : Meeting c (chain ++ [p]) (.ok ()) (c'.add p stat record) met
      (added ++ [⟨p, stat, Cache.showAmong c'.nodes p record, record⟩]) [] := by
  obtain rfl := h.left_eq_nil rfl
  have hchain := h.chain_concat p
  have hnew := h.new_concat hp
  refine ⟨by simpa using hchain, h.isSome_of_met, by simpa using hnew, ?_, fun _ => rfl, by simp⟩
  rw [Cache.add, h.cache_eq, List.append_assoc]

variable {σ : Type} [FileSystem (StateM σ)]

/-- Meeting an object after those above it, of which all had been met if it had. -/
theorem meetAfter {meetDir : Work (StateM σ) Unit}
    (hmet : (c.node? p).isSome → ∀ q ∈ chain, (c.node? q).isSome)
    (hdir : ∀ s, ∃ met added left, Meeting c chain ((meetDir.run.run c).run s).1.1
      ((meetDir.run.run c).run s).1.2 met added left) (s : σ) :
    ∃ met added left, Meeting c (chain ++ [p])
      (((Cache.meetAfter p meetDir).run.run c).run s).1.1
      (((Cache.meetAfter p meetDir).run.run c).run s).1.2 met added left := by
  rw [Cache.run_meetAfter]
  split
  · rename_i hp
    refine ⟨_, _, _, known fun q hq => ?_⟩
    rcases List.mem_append.1 hq with hq | hq
    · exact hmet hp q hq
    · exact List.mem_singleton.1 hq ▸ hp
  · rename_i hp
    have hnone : c.node? p = none := Option.not_isSome_iff_eq_none.1 hp
    dsimp only
    split
    · rename_i e _
      -- Where the chain above divides is the same whenever it is met.
      obtain ⟨met, added, left, h⟩ := hdir s
      exact ⟨_, _, _, h.unknown hnone e⟩
    · rename_i stat _
      obtain ⟨met, added, left, h⟩ := hdir ((FileSystem.stat p.path : StateM σ _).run s).2
      generalize (meetDir.run.run c).run ((FileSystem.stat p.path : StateM σ _).run s).2 = out
        at h ⊢
      obtain ⟨⟨r, c'⟩, s'⟩ := out
      cases r with
      | error e => exact ⟨_, _, _, h.below hnone⟩
      | ok _ =>
        dsimp only
        split
        · rename_i e hrecord
          exact ⟨_, _, _, h.unread hnone hrecord⟩
        · rename_i record _
          exact ⟨_, _, _, h.add hnone stat record⟩

end Meeting

/-! ## 3. All the way down -/

variable {σ : Type} [FileSystem (StateM σ)] {c : Cache}

/-- Meeting an object adds some of the places on the way down to it to a cache that has grown,
and leaves the others. -/
theorem exists_meeting (hg : Grown c.nodes) : ∀ (p : Place) (s : σ),
    ∃ met added left, Meeting c p.upward.reverse
      (((Cache.meet p : Work (StateM σ) Unit).run.run c).run s).1.1
      (((Cache.meet p : Work (StateM σ) Unit).run.run c).run s).1.2 met added left
  | .root, s => by
    change ∃ met added left, Meeting c ([] ++ [Place.root]) _ _ met added left
    exact Meeting.meetAfter (by simp) (fun _ => ⟨[], [], [], Meeting.known (by simp)⟩) s
  | .entry dir name, s => by
    rw [Place.upward, List.reverse_cons]
    refine Meeting.meetAfter (fun hmet q hq => ?_) (fun s => exists_meeting hg dir s) s
    exact hg.met_of_mem_upward hmet (List.mem_cons_of_mem _ (List.mem_reverse.1 hq))

namespace Place

theorem nodup_upward : ∀ p : Place, p.upward.Nodup
  | .root => by simp [upward]
  | .entry _ _ => List.nodup_cons.2 ⟨entry_not_mem_upward, nodup_upward _⟩

/-- A place is at the end of the way down to it. -/
theorem mem_of_reverse_upward {p : Place} {before left : List Place}
    (h : p.upward.reverse = before ++ left) (hleft : left ≠ []) : p ∈ left := by
  have hlast : p.upward.reverse.getLast? = some p := by
    cases p <;> simp [upward]
  rw [h, List.getLast?_append] at hlast
  cases hlist : left.getLast? with
  | none => exact absurd (List.getLast?_eq_none_iff.1 hlist) hleft
  | some q =>
    rw [hlist, Option.some_or] at hlast
    exact Option.some.inj hlast ▸ List.mem_of_getLast? hlist

end Place

namespace Cache

theorem run_meet_of_unknown {p : Place} {e : FileError} {s : σ} (hp : c.node? p = none)
    (h : ((FileSystem.stat p.path : StateM σ _).run s).1 = .error e) :
    ((meet p : Work (StateM σ) Unit).run.run c).run s =
      ((.error (.io p.path e), c), ((FileSystem.stat p.path : StateM σ _).run s).2) := by
  have hafter : ∀ meetDir : Work (StateM σ) Unit, ((meetAfter p meetDir).run.run c).run s =
      ((.error (.io p.path e), c), ((FileSystem.stat p.path : StateM σ _).run s).2) := by
    intro meetDir
    rw [run_meetAfter, hp, if_neg (by simp)]
    dsimp only
    rw [h]
  cases p with
  | root => exact hafter _
  | entry dir name => exact hafter _

end Cache

/-- Meeting the object that a path leads to adds nodes for places on the way down to it that had
not been met, from the top and without a gap, after all nodes that were there. After a success
these are all such places, and the answer is the node of the clean path. After a failure some
are left, the object itself among them, and it was the record of the first of them that could
not be read unless nothing was added. Nothing is added if the file system does not describe the
object itself, or if the path is not absolute. -/
theorem meetPath_adds (h : Reachable σ c) (p : Path) (s : σ) :
    (p.isAbsolute = false → ((Cache.meetPath p : Work (StateM σ) Place).run.run c).run s =
      ((.error (.badTarget p.text "path is not absolute"), c), s)) ∧
    (p.isAbsolute = true → ∃ place r c' s' met added left, p.clean = .ok place.path ∧
      ((Cache.meetPath p : Work (StateM σ) Place).run.run c).run s = ((r, c'), s') ∧
      Meeting c place.upward.reverse (r.map fun _ => ()) c' met added left ∧
      (∀ q, r = .ok q → (∀ above ∈ place.upward, (c'.node? above).isSome) ∧
        ∃ i n, c'.number? q = some i ∧ c'.nodes[i]? = some n ∧ n.place = place) ∧
      (∀ e, r = .error e → place ∈ left ∧ ∀ q ∈ left, c'.node? q = none) ∧
      (∀ e, c.node? place = none → ((FileSystem.stat place.path : StateM σ _).run s).1 = .error e →
        r = .error (.io place.path e) ∧ c' = c)) := by
  refine ⟨fun hp => ?_, fun hp => ?_⟩
  · rw [Cache.meetPath, run_bind, Path.toPlace_of_not_isAbsolute hp]
    rfl
  · obtain ⟨cs, hcs⟩ := Path.isAbsolute_iff.1 hp
    have hplace := Path.toPlace_eq_walk hcs
    generalize Place.root.walk cs = place at hplace
    have hgrown := (h.deed (.meet p) s).grown
    change Grown (((Cache.meetPath p : Work (StateM σ) Place).run.run c).run s).1.2.nodes at hgrown
    obtain ⟨met, added, left, hmeeting⟩ := exists_meeting h.grown place s
    have hclean := Path.clean_of_toPlace hplace
    rw [Cache.run_meetPath_of_toPlace hplace] at hgrown ⊢
    rcases hmeet : ((Cache.meet place : Work (StateM σ) Unit).run.run c).run s with ⟨⟨r, c'⟩, s'⟩
    rw [hmeet] at hmeeting hgrown
    cases r with
    | ok _ =>
      have hmet : ∀ above ∈ place.upward, (c'.node? above).isSome := fun above habove =>
        hmeeting.isSome_node? (List.mem_reverse.2 habove)
      refine ⟨place, _, _, _, met, added, left, hclean, rfl, hmeeting, fun q hq => ⟨hmet, ?_⟩,
        by simp [Except.map], fun e hnone hstat => ?_⟩
      · obtain rfl : place = q := Except.ok.inj hq
        obtain ⟨n, hn, hat⟩ := Cache.node?_isSome_iff.1 (hmet place place.self_mem_upward)
        obtain ⟨i, hi⟩ := (Cache.number?_isSome_iff hgrown).2 (List.mem_map.2 ⟨n, hn, hat⟩)
        obtain ⟨n, hn, hat⟩ := (Cache.number?_eq_some_iff hgrown).1 hi
        exact ⟨i, n, hi, hn, hat⟩
      · rw [Cache.run_meet_of_unknown hnone hstat] at hmeet
        cases hmeet
    | error e =>
      have hleft := (hmeeting.stopped e rfl).1
      have hchain : place.upward.reverse = (met ++ added.map Node.place) ++ left := by
        rw [hmeeting.chain_eq, List.append_assoc]
      have hplace : place ∈ left := Place.mem_of_reverse_upward hchain hleft
      refine ⟨place, _, _, _, met, added, left, hclean, rfl, hmeeting, by simp [Except.map],
        fun _ _ => ⟨hplace, fun q hq => ?_⟩, fun e' hnone hstat => ?_⟩
      · have hdistinct := List.pairwise_reverse.2 (place.nodup_upward.imp Ne.symm)
        exact hmeeting.node?_of_mem_left hdistinct hq
      · rw [Cache.run_meet_of_unknown hnone hstat] at hmeet
        cases hmeet
        exact ⟨rfl, rfl⟩

/-- A file two directories down, where the record of the second cannot be read. -/
def Tree.unreadable : Tree :=
  .ofFiles [(⟨"/a/b/c"⟩, .empty), (⟨"/a/b/.meta/_"⟩, "no record".toUTF8)]

/-- The root and the first directory are met then, and the file is left. -/
theorem meetPath_adds_unreadable :
    Reachable Tree ⟨.default, .root, []⟩ ∧ Path.isAbsolute ⟨"/a//b/c"⟩ = true ∧
      let out := ((Cache.meetPath ⟨"/a//b/c"⟩ : Work (StateM Tree) Place).run.run
        ⟨.default, .root, []⟩).run Tree.unreadable
      out.1.1.toOption.isSome = false ∧ out.1.2.nodes.map (·.place.path.text) = ["/", "/a"] ∧
        ∃ place, Path.clean ⟨"/a//b/c"⟩ = .ok place.path ∧ out.1.2.node? place = none := by
  have hreachable : Reachable Tree ⟨.default, .root, []⟩ := .empty .default .root
  have habsolute : Path.isAbsolute ⟨"/a//b/c"⟩ = true := by decide
  refine ⟨hreachable, habsolute, by decide +kernel, by decide +kernel, ?_⟩
  have hfailed : ((Cache.meetPath ⟨"/a//b/c"⟩ : Work (StateM Tree) Place).run.run
      ⟨.default, .root, []⟩ |>.run Tree.unreadable).1.1.toOption.isSome = false := by decide +kernel
  obtain ⟨place, r, c', t, met, added, left, hclean, hrun, -, -, hleft, -⟩ :=
    (meetPath_adds hreachable ⟨"/a//b/c"⟩ Tree.unreadable).2 habsolute
  rw [hrun] at hfailed ⊢
  cases r with
  | ok q => cases hfailed
  | error e => exact ⟨place, hclean, (hleft e rfl).2 place (hleft e rfl).1⟩

end ShowTree
