import WordMachine.Files.Disk
import WordMachine.Proofs.Lines

/-!
# Places of paths

The names of a path, followed from nowhere, spell its `trail`; `clean path` is the path with this
trail. Where a path leads does not depend on the disk, only whether it leads there: a path that can
be followed leads to its trail, and so does the shorter path that `clean` makes of it.

* `Path.join_dir_base`: the last name of a path, put back into its directory, is the path made
  shortest, if the path does not end in a slash.
* `Disk.eq_of_resolve`: whatever is on the disk, a path leads to no other place than its trail.
* `Disk.resolve_clean`: a path that leads to a place still leads there when it is made shortest.
-/

namespace WordMachine

open Text (byte)

namespace Path

/-! ## Shortest paths -/

/-- A name that leads to something in a directory: it is not empty, and neither `here` nor `up`. -/
structure IsPlain (name : Text) : Prop where
  noSlash : byte '/' ∉ name
  ne_nil : name ≠ []
  ne_here : name ≠ here
  ne_up : name ≠ up

/-- The names of a shortest path, the last one first: it goes `up` only at its start, and never from
the root. -/
inductive Shortest (rooted : Bool) : List Text → Prop
  | nil : Shortest rooted []
  | name {name : Text} {place : List Text} (hname : IsPlain name) (h : Shortest rooted place) :
      Shortest rooted (name :: place)
  | up {place : List Text} (hrooted : rooted = false) (hups : ∀ name ∈ place, name = Path.up)
      (h : Shortest rooted place) : Shortest rooted (Path.up :: place)

variable {rooted : Bool} {place : List Text} {name : Text}

/-- No name of a shortest `place` is empty or has a slash in it. -/
theorem Shortest.mem (h : Shortest rooted place) : ∀ name ∈ place, byte '/' ∉ name ∧ name ≠ [] := by
  induction h with
  | nil => exact fun _ h => nomatch h
  | name hname _ ih => exact List.forall_mem_cons.mpr ⟨⟨hname.noSlash, hname.ne_nil⟩, ih⟩
  | up _ _ _ ih => exact List.forall_mem_cons.mpr ⟨⟨by decide, by decide⟩, ih⟩

/-- A name stays at a place, goes `up` from it, or leads to something in it. -/
theorem name_cases (hname : byte '/' ∉ name) :
    (name = [] ∨ name = here) ∨ name = up ∨ IsPlain name := by
  by_cases hskip : name = [] ∨ name = here
  · exact .inl hskip
  · obtain ⟨hnil, hhere⟩ := not_or.mp hskip
    by_cases hup : name = up
    · exact .inr (.inl hup)
    · exact .inr (.inr ⟨hname, hnil, hhere, hup⟩)

theorem follow_of_skipped (hname : name = [] ∨ name = here) : follow rooted place name = place := by
  simp [follow, hname]

theorem follow_of_isPlain (hname : IsPlain name) : follow rooted place name = name :: place := by
  simp [follow, hname.ne_nil, hname.ne_here, hname.ne_up]

/-- Above the start there is only further `up` to go. -/
theorem follow_up_of_ups (hups : ∀ name ∈ place, name = Path.up) :
    follow false place Path.up = Path.up :: place := by
  cases place with
  | nil => rfl
  | cons last rest =>
    obtain rfl := hups last List.mem_cons_self
    rfl

theorem follow_up_of_isPlain (hname : IsPlain name) :
    follow rooted (name :: place) Path.up = place := by
  have hup : ¬(Path.up.isEmpty || Path.up == here) = true := by decide
  simp [follow, hup, hname.ne_up]

/-- Following one more `name` keeps a path shortest. -/
theorem Shortest.follow (h : Shortest rooted place) (hname : byte '/' ∉ name) :
    Shortest rooted (follow rooted place name) := by
  rcases name_cases hname with hskip | rfl | hplain
  · rwa [follow_of_skipped hskip]
  · cases h with
    | nil =>
      cases rooted with
      | true => exact .nil
      | false => exact .up rfl (fun _ h => nomatch h) .nil
    | name hlast hrest => rwa [follow_up_of_isPlain hlast]
    | up hrooted hups hrest =>
      exact .up hrooted (List.forall_mem_cons.mpr ⟨rfl, hups⟩) (.up hrooted hups hrest)
  · rw [follow_of_isPlain hplain]
    exact .name hplain h

/-- The `names` of a path, followed from a shortest path, give a shortest path. -/
theorem shortest_foldl {names : List Text} (hnames : ∀ name ∈ names, byte '/' ∉ name) :
    ∀ {place : List Text}, Shortest rooted place →
      Shortest rooted (names.foldl (Path.follow rooted) place) := by
  induction names with
  | nil => exact fun h => h
  | cons name names ih =>
    intro place h
    rw [List.forall_mem_cons] at hnames
    exact ih hnames.2 (h.follow hnames.1)

/-- Followed from nowhere, the names of a shortest `place` spell it again. -/
theorem Shortest.foldl_follow (h : Shortest rooted place) :
    place.reverse.foldl (Path.follow rooted) [] = place := by
  induction h with
  | nil => rfl
  | name hname h ih =>
    rw [List.reverse_cons, List.foldl_append, ih]
    exact follow_of_isPlain hname
  | up hrooted hups h ih =>
    subst hrooted
    rw [List.reverse_cons, List.foldl_append, ih]
    exact follow_up_of_ups hups

/-- The names that a path follows from nowhere, the last one first. -/
def trail (path : Text) : List Text :=
  (names path).foldl (Path.follow (isRooted path)) []

theorem noSlash_of_mem_names {path : Text} : ∀ name ∈ names path, byte '/' ∉ name :=
  fun _ h => Input.not_mem_of_mem_splitOn h

theorem shortest_trail (path : Text) : Shortest (isRooted path) (trail path) :=
  shortest_foldl noSlash_of_mem_names .nil

/-! ## The names of paths -/

/-- The names of a path that is put together from the names `ns` are these names. -/
theorem names_join {ns : List Text} (hns : ∀ name ∈ ns, byte '/' ∉ name) (hne : ns ≠ []) :
    names (Text.join root ns) = ns :=
  List.splitOn_intercalate (byte '/') hns hne

/-- A path is put together from its `names`. -/
theorem join_names (path : Text) : Text.join root (names path) = path :=
  List.intercalate_splitOn (byte '/')

theorem names_of_not_mem (hname : byte '/' ∉ name) : names name = [name] :=
  List.splitOn_eq_singleton hname

theorem names_append (dir name : Text) :
    names (dir ++ byte '/' :: name) = names dir ++ names name :=
  List.splitOn_append_cons_self dir name

theorem names_cons_slash (path : Text) : names (byte '/' :: path) = [] :: names path :=
  names_append [] path

theorem isRooted_append (dir name : Text) :
    isRooted (dir ++ byte '/' :: name) = isRooted (dir ++ [byte '/']) := by
  cases dir <;> rfl

theorem isRooted_of_not_mem (hname : byte '/' ∉ name) : isRooted name = false := by
  cases name with
  | nil => rfl
  | cons b rest =>
    have hb : b ≠ byte '/' := fun heq => hname (heq ▸ List.mem_cons_self)
    simp [isRooted, hb]

/-- What is added to the directory `dir` is followed from there. -/
theorem trail_append (dir name : Text) :
    trail (dir ++ byte '/' :: name) =
      (names name).foldl (Path.follow (isRooted (dir ++ [byte '/'])))
        ((names dir).foldl (Path.follow (isRooted (dir ++ [byte '/']))) []) := by
  rw [trail, isRooted_append, names_append, List.foldl_append]

/-- A slash at the end of a path adds nothing to what it follows. -/
theorem trail_concat_slash {path : Text} (hne : path ≠ []) :
    isRooted (path ++ [byte '/']) = isRooted path ∧ trail (path ++ [byte '/']) = trail path := by
  have hrooted : isRooted (path ++ [byte '/']) = isRooted path := by
    cases path with
    | nil => exact absurd rfl hne
    | cons b rest => rfl
  refine ⟨hrooted, ?_⟩
  rw [trail_append, hrooted]
  rfl

/-! ## Paths made shortest -/

theorem clean_eq (path : Text) : clean path =
    if isRooted path then byte '/' :: Text.join root (trail path).reverse
    else if (Text.join root (trail path).reverse).isEmpty then here
    else Text.join root (trail path).reverse := rfl

/-- Making a path shortest depends on no more of it than its `trail` and where it starts. -/
theorem clean_congr {path path' : Text} (hrooted : isRooted path = isRooted path')
    (htrail : trail path = trail path') : clean path = clean path' := by
  rw [clean_eq, clean_eq, hrooted, htrail]

/-- The trail of a path is read off the joined names again, unless it is empty. -/
theorem names_join_trail {path : Text} (hne : trail path ≠ []) :
    names (Text.join root (trail path).reverse) = (trail path).reverse := by
  refine names_join (fun name hname => ?_) fun heq => hne (List.reverse_eq_nil_iff.mp heq)
  exact ((shortest_trail path).mem name (List.mem_reverse.mp hname)).1

/-- No name of a trail is empty. -/
theorem reverse_trail_ne_nil_cons (path : Text) (ns : List Text) :
    (trail path).reverse ≠ [] :: ns := by
  intro heq
  have hmem : [] ∈ trail path := List.mem_reverse.mp (heq ▸ List.mem_cons_self)
  exact ((shortest_trail path).mem [] hmem).2 rfl

/-- So a path that is put together from a trail starts with no slash. -/
theorem join_trail_ne_cons_slash (path rest : Text) :
    Text.join root (trail path).reverse ≠ byte '/' :: rest := by
  intro heq
  by_cases hnil : trail path = []
  · rw [hnil] at heq
    cases heq
  · have hnames := names_join_trail hnil
    rw [heq, names_cons_slash] at hnames
    exact reverse_trail_ne_nil_cons path _ hnames.symm

theorem join_trail_ne_nil {path : Text} (hne : trail path ≠ []) :
    Text.join root (trail path).reverse ≠ [] := by
  intro heq
  have hnames := names_join_trail hne
  rw [heq] at hnames
  exact reverse_trail_ne_nil_cons path [] hnames.symm

theorem clean_ne_nil (path : Text) : clean path ≠ [] := by
  rw [clean_eq]
  split
  · exact List.cons_ne_nil _ _
  · split
    · decide
    · exact fun heq => absurd (List.isEmpty_iff.mpr heq) ‹_›

theorem isRooted_clean (path : Text) : isRooted (clean path) = isRooted path := by
  rw [clean_eq]
  split
  · rw [‹isRooted path = true›]
    rfl
  · rw [Bool.not_eq_true] at *
    rw [‹isRooted path = false›]
    split
    · rfl
    · cases hjoin : Text.join root (trail path).reverse with
      | nil => rfl
      | cons b rest =>
        have hb : b ≠ byte '/' := fun heq => join_trail_ne_cons_slash path rest (heq ▸ hjoin)
        simp [isRooted, hb]

/-- A path that was made shortest has the names of the trail, after `skipped` names that lead
nowhere else. -/
theorem names_clean (path : Text) : ∃ skipped, (∀ name ∈ skipped, name = [] ∨ name = here) ∧
    names (clean path) = skipped ++ (trail path).reverse := by
  have hclean := clean_eq path
  by_cases hnil : trail path = []
  · rw [hnil] at hclean ⊢
    cases hrooted : isRooted path with
    | true =>
      rw [hrooted] at hclean
      exact ⟨[[], []], by simp, by rw [hclean]; decide⟩
    | false =>
      rw [hrooted] at hclean
      exact ⟨[here], by simp, by rw [hclean]; decide⟩
  · have hnames := names_join_trail hnil
    cases hrooted : isRooted path with
    | true =>
      rw [hclean, hrooted, if_pos rfl, names_cons_slash, hnames]
      exact ⟨[[]], by simp, rfl⟩
    | false =>
      rw [hclean, hrooted, if_neg Bool.false_ne_true,
        if_neg (by simpa using join_trail_ne_nil hnil), hnames]
      exact ⟨[], by simp, rfl⟩

/-- Names that lead nowhere else are `skipped`. -/
theorem foldl_follow_skipped {skipped : List Text}
    (hskip : ∀ name ∈ skipped, name = [] ∨ name = here) :
    skipped.foldl (follow rooted) place = place := by
  induction skipped with
  | nil => rfl
  | cons name skipped ih =>
    rw [List.forall_mem_cons] at hskip
    rw [List.foldl_cons, follow_of_skipped hskip.1, ih hskip.2]

/-- **Making a path shortest keeps its trail.** -/
theorem trail_clean (path : Text) : trail (clean path) = trail path := by
  obtain ⟨skipped, hskip, hnames⟩ := names_clean path
  rw [trail, isRooted_clean, hnames, List.foldl_append, foldl_follow_skipped hskip]
  exact (shortest_trail path).foldl_follow

/-! ## The directory and the last name -/

/-- The path is `name` after `folder`, which ends in the last slash of the path, if there is one. -/
structure Split (path folder name : Text) : Prop where
  eq : path = folder ++ name
  folder : folder = [] ∨ ∃ above, folder = above ++ [byte '/']
  noSlash : byte '/' ∉ name

theorem exists_split (path : Text) : ∃ folder name, Split path folder name := by
  by_cases hslash : byte '/' ∈ path.reverse
  · obtain ⟨after, before, heq, hafter⟩ := List.eq_append_cons_of_mem hslash
    refine ⟨before.reverse ++ [byte '/'], after.reverse, ?_, .inr ⟨before.reverse, rfl⟩, ?_⟩
    · rw [← List.reverse_reverse path, heq]
      simp
    · exact fun h => hafter (List.mem_reverse.mp h)
  · exact ⟨[], path, rfl, .inl rfl, fun h => hslash (List.mem_reverse.mpr h)⟩

namespace Split

variable {path folder : Text} (h : Split path folder name)

include h

/-- Another name, `other`, can be put in the place of the last one. -/
theorem sibling {other : Text} (hother : byte '/' ∉ other) : Split (folder ++ other) folder other :=
  ⟨rfl, h.folder, hother⟩

theorem isRooted_eq : isRooted path = isRooted folder := by
  rw [h.eq]
  rcases h.folder with rfl | ⟨above, rfl⟩
  · exact isRooted_of_not_mem h.noSlash
  · rw [List.append_assoc]
    exact isRooted_append above name

/-- The last `name` is followed from where the names in `folder` lead. -/
theorem trail_eq : trail path = follow (isRooted folder) (trail folder) name := by
  rw [h.eq]
  rcases h.folder with rfl | ⟨above, rfl⟩
  · rw [List.nil_append, trail, names_of_not_mem h.noSlash, isRooted_of_not_mem h.noSlash]
    rfl
  · rw [List.append_assoc, List.singleton_append, trail_append, names_of_not_mem h.noSlash,
      trail_append above []]
    rfl

/-- The bytes of `name` are none of the directory's. -/
theorem dir_eq : dir path = clean folder := by
  have hname : ∀ b ∈ name.reverse, (b != byte '/') = true := by
    intro b hb
    rw [bne_iff_ne]
    exact fun heq => h.noSlash (heq ▸ List.mem_reverse.mp hb)
  rw [dir, h.eq, List.reverse_append, List.dropWhile_append_of_pos hname]
  rcases h.folder with rfl | ⟨above, rfl⟩
  · rfl
  · simp

theorem base_eq (hne : name ≠ []) : base path = name := by
  have hname : ∀ b ∈ name.reverse, (b != byte '/') = true := by
    intro b hb
    rw [bne_iff_ne]
    exact fun heq => h.noSlash (heq ▸ List.mem_reverse.mp hb)
  have hpath : path.isEmpty = false := by simp [h.eq, hne]
  have hdrop : path.reverse.dropWhile (· == byte '/') = path.reverse := by
    rw [h.eq, List.reverse_append]
    cases hrev : name.reverse with
    | nil => exact absurd (List.reverse_eq_nil_iff.mp hrev) hne
    | cons b rest =>
      have hb : b ≠ byte '/' := bne_iff_ne.mp (hname b (hrev ▸ List.mem_cons_self))
      simp [hb]
  have htake : (path.reverse.takeWhile (· != byte '/')).reverse = name := by
    rw [h.eq, List.reverse_append, List.takeWhile_append_of_pos hname]
    rcases h.folder with rfl | ⟨above, rfl⟩
    · simp
    · simp
  rw [base, hpath, if_neg Bool.false_ne_true, hdrop]
  dsimp only
  rw [htake]
  simp [hne]

/-- The `name` in the directory of a path is the path with this name as its last. -/
theorem join_clean : join (clean folder) name = clean path := by
  obtain ⟨hrooted, htrail⟩ := trail_concat_slash (clean_ne_nil folder)
  have hjoined : Split (clean folder ++ byte '/' :: name) (clean folder ++ [byte '/']) name :=
    ⟨by simp, .inr ⟨_, rfl⟩, h.noSlash⟩
  refine clean_congr ?_ ?_
  · rw [hjoined.isRooted_eq, hrooted, isRooted_clean, h.isRooted_eq]
  · rw [hjoined.trail_eq, hrooted, htrail, isRooted_clean, trail_clean, h.trail_eq]

end Split

/-- **The last name of a path, put back into its directory, is the path made shortest**, unless
`path` ends in a slash. -/
theorem join_dir_base {path : Text} (hslash : path.getLast? ≠ some (byte '/')) :
    join (dir path) (base path) = clean path := by
  obtain ⟨folder, name, h⟩ := exists_split path
  by_cases hname : name = []
  · -- The path is empty, as it would end in a slash otherwise.
    have hpath : path = [] := by
      have heq := h.eq
      rw [hname, List.append_nil] at heq
      rcases h.folder with hfolder | ⟨above, hfolder⟩
      · exact heq.trans hfolder
      · rw [heq, hfolder] at hslash
        simp at hslash
    subst hpath
    decide
  · rw [h.dir_eq, h.base_eq hname, h.join_clean]

/-- The last name of a path is the `root`, or it has no slash in it. -/
theorem base_cases (path : Text) : base path = root ∨ byte '/' ∉ base path := by
  unfold base
  split
  · exact .inr (by decide)
  · dsimp only
    split
    · exact .inl rfl
    · refine .inr fun hmem => ?_
      simpa using List.mem_takeWhile_imp (List.mem_reverse.mp hmem)

/-! ## The bytes of a path made shortest -/

/-- Only a `name` that is followed comes into a place. -/
theorem mem_follow {other : Text} (h : other ∈ follow rooted place name) :
    other = name ∨ other ∈ place := by
  unfold follow at h
  split at h
  · exact .inr h
  · split at h
    · rename_i hup
      have hup : name = up := eq_of_beq hup
      cases place with
      | nil =>
        cases rooted with
        | true => exact absurd h List.not_mem_nil
        | false => exact .inl ((List.mem_singleton.mp h).trans hup.symm)
      | cons last rest =>
        dsimp only at h
        split at h
        · exact (List.mem_cons.mp h).imp_left fun heq => heq.trans hup.symm
        · exact .inr (List.mem_cons_of_mem last h)
    · exact List.mem_cons.mp h

theorem mem_foldl_follow {other : Text} {ns : List Text} : ∀ {place : List Text},
    other ∈ ns.foldl (follow rooted) place → other ∈ ns ∨ other ∈ place := by
  induction ns with
  | nil => exact fun h => .inr h
  | cons first ns ih =>
    intro place h
    rcases ih h with h | h
    · exact .inl (List.mem_cons_of_mem first h)
    · exact (mem_follow h).imp_left fun heq : other = first => heq ▸ List.mem_cons_self

/-- Making a path shortest brings no byte `b` into it but slashes and dots. -/
theorem mem_clean {path : Text} {b : UInt8} (h : b ∈ clean path) :
    b = byte '/' ∨ b = byte '.' ∨ b ∈ path := by
  have hjoin : b ∈ Text.join root (trail path).reverse → b = byte '/' ∨ b ∈ path := by
    intro hb
    rcases Text.mem_join hb with hsep | ⟨name, hname, hb⟩
    · exact .inl (List.mem_singleton.mp hsep)
    · have hmem : name ∈ names path :=
        (mem_foldl_follow (List.mem_reverse.mp hname)).resolve_right List.not_mem_nil
      exact .inr (join_names path ▸ Text.mem_join_of_mem hmem hb)
  rw [clean_eq] at h
  split at h
  · rcases List.mem_cons.mp h with h | h
    · exact .inl h
    · exact (hjoin h).imp_right .inr
  · split at h
    · exact .inr (.inl (List.mem_singleton.mp h))
    · exact (hjoin h).imp_right .inr

/-- The length of a path that is put together from the names `ns`, with a slash before each of
them. -/
def weight (ns : List Text) : Nat :=
  (ns.map fun name => name.length + 1).sum

theorem weight_cons (name : Text) (ns : List Text) :
    weight (name :: ns) = name.length + 1 + weight ns := by
  simp [weight]

theorem weight_reverse (ns : List Text) : weight ns.reverse = weight ns := by
  simp [weight]

theorem length_join {ns : List Text} (hne : ns ≠ []) :
    (Text.join root ns).length + 1 = weight ns := by
  induction ns with
  | nil => exact absurd rfl hne
  | cons name ns ih =>
    rw [weight_cons]
    cases ns with
    | nil => rw [Text.join, List.intercalate_singleton]; rfl
    | cons next ns =>
      have hroot : root.length = 1 := by decide
      have hnext := ih (List.cons_ne_nil next ns)
      rw [Text.join] at hnext ⊢
      rw [List.intercalate_cons_cons, List.length_append, List.length_append, hroot]
      omega

/-- Following a `name` makes a path longer by no more than the name. -/
theorem weight_follow_le (rooted : Bool) (place : List Text) (name : Text) :
    weight (follow rooted place name) ≤ weight place + (name.length + 1) := by
  unfold follow
  split
  · omega
  · split
    · rename_i hup
      have hup : name.length = 2 := congrArg List.length (eq_of_beq hup)
      have hlength : up.length = 2 := by decide
      cases place with
      | nil => cases rooted <;> simp [weight, hup, hlength]
      | cons last rest =>
        dsimp only
        rw [weight_cons last rest]
        split
        · rw [weight_cons, weight_cons]
          omega
        · omega
    · rw [weight_cons]
      omega

theorem weight_foldl_follow_le (rooted : Bool) (ns place : List Text) :
    weight (ns.foldl (follow rooted) place) ≤ weight place + weight ns := by
  induction ns generalizing place with
  | nil => exact Nat.le_add_right _ _
  | cons name ns ih =>
    have hfollow := weight_follow_le rooted place name
    have hrest := ih (follow rooted place name)
    rw [List.foldl_cons, weight_cons]
    omega

theorem weight_names (path : Text) : weight (names path) = path.length + 1 := by
  have hne : names path ≠ [] := List.splitOn_ne_nil (byte '/') path
  rw [← length_join hne, join_names]

/-- The trail of a path weighs no more than its names; a slash at the start is none of them. -/
theorem weight_trail_le {path : Text} (hne : path ≠ []) :
    weight (trail path) ≤ if isRooted path then path.length else path.length + 1 := by
  rw [trail]
  split
  · obtain ⟨rest, rfl⟩ : ∃ rest, path = byte '/' :: rest := by
      cases path with
      | nil => exact absurd rfl hne
      | cons b rest => exact ⟨rest, by simpa [isRooted] using ‹isRooted (b :: rest) = true›⟩
    rw [names_cons_slash, List.foldl_cons, follow_of_skipped (.inl rfl), List.length_cons,
      ← weight_names rest]
    exact (weight_foldl_follow_le _ _ []).trans_eq (Nat.zero_add _)
  · rw [← weight_names path]
    exact (weight_foldl_follow_le _ _ []).trans_eq (Nat.zero_add _)

theorem length_join_trail (path : Text) : trail path = [] ∨
    (Text.join root (trail path).reverse).length + 1 = weight (trail path) := by
  by_cases hnil : trail path = []
  · exact .inl hnil
  · rw [← weight_reverse]
    exact .inr (length_join fun heq => hnil (List.reverse_eq_nil_iff.mp heq))

/-- **Making a path shortest makes it no longer**: `clean path` has at most the length of `path`. -/
theorem length_clean_le {path : Text} (hne : path ≠ []) : (clean path).length ≤ path.length := by
  have hlength := List.length_pos_iff.mpr hne
  have hweight := weight_trail_le hne
  have hjoin := length_join_trail path
  rw [clean_eq]
  split
  · rw [if_pos ‹_›] at hweight
    rcases hjoin with hnil | hjoin
    · rw [hnil]
      exact hlength
    · rw [List.length_cons]
      omega
  · rw [if_neg ‹_›] at hweight
    split
    · exact hlength
    · rcases hjoin with hnil | hjoin
      · rw [hnil]
        exact Nat.zero_le _
      · omega

end Path

namespace Disk

/-! ## Following names on a disk -/

/-- The place from which a path is followed: `rootPlace`, or the working directory. -/
def startOf (rooted : Bool) : Place :=
  if rooted then rootPlace else []

section Steps

variable {rooted : Bool} {place : List Text} {name : Text}

/-- To go `up` on a disk is to go `up` on the shortest path. -/
theorem parent_append_startOf (h : Path.Shortest rooted place) :
    parent (place ++ startOf rooted) = Path.follow rooted place Path.up ++ startOf rooted := by
  cases h with
  | nil => cases rooted <;> rfl
  | @name last rest hlast hrest =>
    have hroot : last :: rest ++ startOf rooted ≠ rootPlace := by
      intro heq
      -- The name of the root is a slash, which no name has in it.
      exact hlast.noSlash ((List.cons.inj heq).1 ▸ by decide)
    rw [Path.follow_up_of_isPlain hlast]
    simp only [List.cons_append] at hroot ⊢
    simp [parent, hroot, hlast.ne_up]
  | @up rest hrooted hups hrest =>
    subst hrooted
    have hall : ∀ name ∈ Path.up :: rest, name = Path.up := List.forall_mem_cons.mpr ⟨rfl, hups⟩
    have hroot : Path.up :: rest ≠ rootPlace := by
      intro heq
      exact absurd (List.cons.inj heq).1 (by decide)
    rw [Path.follow_up_of_ups hall]
    simp [startOf, parent, hroot]

/-- The directories above the working directory are always there. -/
theorem node?_of_ups (d : Disk) (h : ∀ name ∈ place, name = Path.up) :
    d.node? place = some .directory := by
  have hall : place.all (· == Path.up) = true := List.all_eq_true.mpr fun name hname =>
    beq_iff_eq.mpr (h name hname)
  simp [node?, hall]

variable (d : Disk) (names : List Text)

theorem walk_of_skipped (h : name = [] ∨ name = Path.here) :
    d.walk place (name :: names) = d.walk place names := by
  simp [walk, h]

theorem walk_up : d.walk place (Path.up :: names) = d.walk (parent place) names := by
  have hup : ¬(Path.up.isEmpty || Path.up == Path.here) = true := by decide
  simp [walk, hup]

/-- A `name` that leads to something is the last one, or that of a directory. -/
theorem walk_eq_ok_iff {target : Place} (h : Path.IsPlain name) :
    d.walk place (name :: names) = .ok target ↔ name.length ≤ maxName ∧
      (names = [] ∧ target = name :: place ∨
        names ≠ [] ∧ d.node? (name :: place) = some .directory ∧
          d.walk (name :: place) names = .ok target) := by
  rw [walk]
  simp only [List.isEmpty_iff, h.ne_nil, h.ne_here, h.ne_up, beq_iff_eq, Bool.or_eq_true, or_self,
    if_false]
  by_cases hlength : name.length > maxName
  · simp [hlength]
  · rw [if_neg hlength]
    by_cases hnames : names = []
    · simp [hnames, Nat.le_of_not_gt hlength, eq_comm]
    · rw [if_neg hnames]
      rcases hnode : d.node? (name :: place) with _ | _ | _
      · simp [hnames]
      · simp [hnames]
      · simp [hnames, Nat.le_of_not_gt hlength]

end Steps

/-- Every name on the way to the place, and the place itself, is that of a directory of `d`. -/
inductive Dirs (d : Disk) (rooted : Bool) : List Text → Prop
  | nil : Dirs d rooted []
  | cons {name : Text} {place : List Text} (hlength : name.length ≤ maxName)
      (hdir : d.node? (name :: place ++ startOf rooted) = some .directory)
      (h : Dirs d rooted place) : Dirs d rooted (name :: place)

/-- The place is in a directory of `d`, or is one. -/
inductive Reached (d : Disk) (rooted : Bool) : List Text → Prop
  | nil : Reached d rooted []
  | cons {name : Text} {place : List Text} (hlength : name.length ≤ maxName)
      (h : Dirs d rooted place) : Reached d rooted (name :: place)

section Walks

variable {d : Disk} {rooted : Bool} {place : List Text}

theorem Dirs.reached (h : Dirs d rooted place) : Reached d rooted place := by
  cases h with
  | nil => exact .nil
  | cons hlength _ h => exact .cons hlength h

/-- From a directory, `up` leads to a directory. -/
theorem Dirs.follow_up (h : Dirs d rooted place) (hshortest : Path.Shortest rooted place) :
    Dirs d rooted (Path.follow rooted place Path.up) := by
  cases hshortest with
  | nil =>
    cases rooted with
    | true => exact .nil
    | false => exact .cons (by decide) (d.node?_of_ups (by decide)) .nil
  | name hlast hrest =>
    rw [Path.follow_up_of_isPlain hlast]
    cases h with
    | cons _ _ h => exact h
  | @up rest hrooted hups hrest =>
    subst hrooted
    have hall : ∀ name ∈ Path.up :: rest, name = Path.up := List.forall_mem_cons.mpr ⟨rfl, hups⟩
    rw [Path.follow_up_of_ups hall]
    refine .cons (by decide) (d.node?_of_ups ?_) h
    rw [startOf, if_neg Bool.false_ne_true, List.append_nil]
    exact List.forall_mem_cons.mpr ⟨rfl, hall⟩

/-- Names that can be followed lead to the place that they spell, through directories only. The
induction is on the `names`, with `Dirs` for the place that they start from. -/
theorem reached_of_walk {target : Place} {names : List Text}
    (hnames : ∀ name ∈ names, byte '/' ∉ name) :
    ∀ {place : List Text}, Path.Shortest rooted place → Dirs d rooted place →
      d.walk (place ++ startOf rooted) names = .ok target →
      target = names.foldl (Path.follow rooted) place ++ startOf rooted ∧
        Reached d rooted (names.foldl (Path.follow rooted) place) := by
  induction names with
  | nil =>
    intro place _ hdirs h
    cases h
    exact ⟨rfl, hdirs.reached⟩
  | cons name names ih =>
    intro place hshortest hdirs h
    rw [List.forall_mem_cons] at hnames
    have hnext := hshortest.follow hnames.1
    rw [List.foldl_cons]
    rcases Path.name_cases hnames.1 with hskip | rfl | hplain
    · rw [walk_of_skipped d names hskip] at h
      rw [Path.follow_of_skipped hskip]
      exact ih hnames.2 hshortest hdirs h
    · rw [walk_up, parent_append_startOf hshortest] at h
      exact ih hnames.2 hnext (hdirs.follow_up hshortest) h
    · rw [Path.follow_of_isPlain hplain] at hnext ⊢
      obtain ⟨hlength, ⟨rfl, rfl⟩ | ⟨-, hdir, h⟩⟩ := (walk_eq_ok_iff d names hplain).mp h
      · exact ⟨rfl, .cons hlength hdirs⟩
      · exact ih hnames.2 hnext (.cons hlength hdir hdirs) h

/-- The names of a directory `place` lead to it, and what comes after them is followed from
there. -/
theorem Dirs.walk_append (h : Dirs d rooted place) (hshortest : Path.Shortest rooted place)
    {target : Place} : ∀ {names : List Text}, names ≠ [] →
      d.walk (place ++ startOf rooted) names = .ok target →
      d.walk (startOf rooted) (place.reverse ++ names) = .ok target := by
  induction h with
  | nil => exact fun _ hwalk => hwalk
  | @cons name place hlength hdir h ih =>
    intro names hne hwalk
    rw [List.reverse_cons, List.append_assoc, List.singleton_append]
    cases hshortest with
    | name hname hrest =>
      refine ih hrest (List.cons_ne_nil name names) ?_
      exact (walk_eq_ok_iff d names hname).mpr ⟨hlength, .inr ⟨hne, hdir, hwalk⟩⟩
    | up hrooted hups hrest =>
      subst hrooted
      refine ih hrest (List.cons_ne_nil Path.up names) ?_
      rw [walk_up, parent_append_startOf hrest, Path.follow_up_of_ups hups]
      exact hwalk

/-- A place that was reached is reached by its names. -/
theorem Reached.walk (h : Reached d rooted place) (hshortest : Path.Shortest rooted place) :
    d.walk (startOf rooted) place.reverse = .ok (place ++ startOf rooted) := by
  cases h with
  | nil => rfl
  | @cons name place hlength h =>
    rw [List.reverse_cons]
    cases hshortest with
    | name hname hrest =>
      refine h.walk_append hrest (List.cons_ne_nil name []) ?_
      exact (walk_eq_ok_iff d [] hname).mpr ⟨hlength, .inl ⟨rfl, rfl⟩⟩
    | up hrooted hups hrest =>
      subst hrooted
      refine h.walk_append hrest (List.cons_ne_nil Path.up []) ?_
      rw [walk_up, parent_append_startOf hrest, Path.follow_up_of_ups hups]
      rfl

theorem walk_append_of_skipped {skipped names : List Text} {start : Place}
    (hskip : ∀ name ∈ skipped, name = [] ∨ name = Path.here) :
    d.walk start (skipped ++ names) = d.walk start names := by
  induction skipped with
  | nil => rfl
  | cons name skipped ih =>
    rw [List.forall_mem_cons] at hskip
    rw [List.cons_append, walk_of_skipped d _ hskip.1, ih hskip.2]

end Walks

/-! ## Where paths lead -/

section Resolving

variable {d : Disk} {path : Text} {target : Place}

/-- A path leads to `target` if its names do; the path itself is neither empty nor too long, and has
no zero byte. -/
theorem resolve_eq_ok_iff : d.resolve path = .ok target ↔
    0 ∉ path ∧ path ≠ [] ∧ path.length < maxPath ∧
      d.walk (startOf (Path.isRooted path)) (Path.names path) = .ok target := by
  unfold resolve
  constructor
  · intro h
    split at h
    · cases h
    · split at h
      · cases h
      · split at h
        · cases h
        · exact ⟨by simpa using ‹¬path.contains 0 = true›, by simpa using ‹¬path.isEmpty = true›,
            Nat.lt_of_not_le ‹_›, h⟩
  · rintro ⟨hzero, hne, hlength, h⟩
    rw [if_neg (by simpa using hzero), if_neg (by simpa using hne), if_neg (Nat.not_le.mpr hlength)]
    exact h

theorem reached_of_resolve (h : d.resolve path = .ok target) :
    target = Path.trail path ++ startOf (Path.isRooted path) ∧
      Reached d (Path.isRooted path) (Path.trail path) :=
  reached_of_walk Path.noSlash_of_mem_names .nil .nil (resolve_eq_ok_iff.mp h).2.2.2

/-- **A path leads to no other place than its trail**, whatever is on the disk `d`. -/
theorem eq_of_resolve (h : d.resolve path = .ok target) :
    target = Path.trail path ++ startOf (Path.isRooted path) :=
  (reached_of_resolve h).1

theorem eq_of_resolve_clean (h : d.resolve (Path.clean path) = .ok target) :
    target = Path.trail path ++ startOf (Path.isRooted path) := by
  rw [eq_of_resolve h, Path.trail_clean, Path.isRooted_clean]

/-- **A path that leads to `target` still leads there when it is made shortest.** -/
theorem resolve_clean (h : d.resolve path = .ok target) :
    d.resolve (Path.clean path) = .ok target := by
  obtain ⟨rfl, hreached⟩ := reached_of_resolve h
  obtain ⟨hzero, hne, hlength, -⟩ := resolve_eq_ok_iff.mp h
  obtain ⟨skipped, hskip, hnames⟩ := Path.names_clean path
  refine resolve_eq_ok_iff.mpr ⟨?_, Path.clean_ne_nil path,
    (Path.length_clean_le hne).trans_lt hlength, ?_⟩
  · intro hmem
    rcases Path.mem_clean hmem with hslash | hdot | hmem
    · exact absurd hslash (by decide)
    · exact absurd hdot (by decide)
    · exact hzero hmem
  · rw [Path.isRooted_clean, hnames, walk_append_of_skipped hskip]
    exact hreached.walk (Path.shortest_trail path)

/-- **A path leads where its last name does in its directory**, unless `path` ends in a slash. -/
theorem resolve_join_dir_base (hslash : path.getLast? ≠ some (byte '/'))
    (h : d.resolve path = .ok target) :
    d.resolve (Path.join (Path.dir path) (Path.base path)) = .ok target := by
  rw [Path.join_dir_base hslash]
  exact resolve_clean h

end Resolving

end Disk

end WordMachine
