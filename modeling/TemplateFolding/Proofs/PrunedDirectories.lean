import TemplateFolding.Proofs.GlobMatching
import TemplateFolding.Source.Project

/-!
# Which directories are pruned

A walk goes into every directory and asks of each file whether the file is to be left out. What is
said about a directory has no effect on the files in it: not that it is hidden, not a rule for
directories only, and not a glob or a rule that the directory matches but the file does not.

What does prune a directory is a pattern that spreads: it matches everything below a directory that
it matches. The default globs are of this kind, those for precompiled headers apart.
-/

namespace TemplateFolding

open Text

/-! ## Paths below one another -/

namespace Path

/-- A path strictly below another. -/
def IsBelow (d p : Path) : Prop :=
  ∃ tail : Path, tail ≠ [] ∧ tail.isAbsolute = false ∧ p = d.join tail

variable {root d p tail : Path}

/-- A path below another one begins with it. -/
lemma IsBelow.exists_append (h : d.IsBelow p) : ∃ x, p = d ++ x := by
  obtain ⟨tail, -, hrel, rfl⟩ := h
  unfold join
  split_ifs with h₁ h₂
  · obtain rfl : d = [] := h₁.resolve_left (by simp [hrel])
    exact ⟨tail, rfl⟩
  · exact ⟨tail, rfl⟩
  · exact ⟨_, rfl⟩

lemma splitAt_ne_nil (separator : Char) (t : Text) : splitAt separator t ≠ [] := by
  fun_cases splitAt separator t <;> simp_all

/-- A text is put together again from what it was split into. -/
lemma join_splitAt (separator : Char) (t : Text) :
    Text.join [separator] (splitAt separator t) = t := by
  fun_induction splitAt separator t with
  | case1 => rfl
  | case2 cs ih =>
    cases hrest : splitAt separator cs with
    | nil => exact absurd hrest (splitAt_ne_nil separator cs)
    | cons part rest =>
      rw [hrest] at ih
      rw [Text.join, ih]
      rfl
  | case3 c cs hc hnone ih => exact absurd hnone (splitAt_ne_nil separator cs)
  | case4 c cs hc part rest hsome ih =>
    rw [hsome] at ih
    rw [← ih]
    cases rest <;> simp [Text.join]

/-- A piece that is not the last is followed by the separator, and one that is not the first follows
it. -/
lemma exists_join_of_mem_dropLast (separator : Char) {ts : List Text} {piece : Text}
    (h : piece ∈ ts.dropLast) : ∃ above below,
      Text.join [separator] ts = above ++ piece ++ separator :: below ∧
        (above = [] ∨ above.getLast? = some separator) := by
  fun_induction Text.join [separator] ts with
  | case1 => simp at h
  | case2 => simp at h
  | case3 t u ts ih =>
    rw [List.dropLast_cons_cons, List.mem_cons] at h
    rcases h with rfl | h
    · exact ⟨[], Text.join [separator] (u :: ts), by simp, .inl rfl⟩
    · obtain ⟨above, below, hsplit, habove⟩ := ih h
      refine ⟨t ++ [separator] ++ above, below, by simp [hsplit], .inr ?_⟩
      rcases habove with rfl | hlast
      · simp
      · rw [List.getLast?_append, hlast]
        rfl

end Path

namespace IgnoreRules

lemma without_append (beginning t : Text) : without beginning (beginning ++ t) = t := by
  rw [without, expect?_eq_some_iff.2 rfl, Option.getD_some]

lemma without_of_not {beginning t : Text} (h : ¬beginning <+: t) : without beginning t = t := by
  unfold without
  cases hrest : expect? beginning t with
  | none => rfl
  | some rest => exact absurd ⟨rest, (expect?_eq_some_iff.1 hrest).symm⟩ h

/-- A `./` in front of a root is in front of what is below it too. There is none in front of the one
and not of the other, unless the root is the current directory. -/
lemma without_root {root tail : Path} (hroot : root ≠ []) (hrel : tail.isAbsolute = false) :
    root = ['.'] ∧ (∀ x, without "./".toList (root.join tail ++ x) = tail ++ x) ∨
      ∃ slash, (slash = ['/'] ∨ slash = [] ∧ root.getLast? = some '/') ∧
        ∀ x, without "./".toList (root.join tail ++ x) =
          without "./".toList root ++ (slash ++ (tail ++ x)) := by
  obtain ⟨slash, hslash, hjoin⟩ : ∃ slash, (slash = ['/'] ∨ slash = [] ∧ root.getLast? = some '/') ∧
      root.join tail = root ++ (slash ++ tail) := by
    unfold Path.join
    rw [if_neg (by simp [hrel, hroot])]
    split_ifs with hlast
    · exact ⟨[], .inr ⟨rfl, hlast⟩, rfl⟩
    · exact ⟨['/'], .inl rfl, rfl⟩
  by_cases hdot : "./".toList <+: root
  · obtain ⟨root, rfl⟩ := hdot
    refine .inr ⟨slash, hslash, fun x => ?_⟩
    rw [hjoin, without_append, List.append_assoc, List.append_assoc, without_append]
    simp
  · rw [without_of_not hdot]
    by_cases hcurrent : root = ['.']
    · subst hcurrent
      -- the slash after the root makes a `./`
      obtain rfl : slash = ['/'] := hslash.resolve_right (by simp)
      refine .inl ⟨rfl, fun x => ?_⟩
      rw [hjoin, List.append_assoc]
      exact without_append "./".toList (tail ++ x)
    · refine .inr ⟨slash, hslash, fun x => ?_⟩
      rw [hjoin, without_of_not, List.append_assoc, List.append_assoc]
      -- two characters of the root are in the way of a `./`, and one that is no period is as well
      match root, hroot, hcurrent, hdot with
      | [c], _, hcurrent, _ =>
        intro hbegins
        have hc : '.' = c ∧ ['/'] <+: slash ++ (tail ++ x) := by simpa using hbegins
        exact hcurrent (by rw [← hc.1])
      | c :: c' :: rest, _, _, hdot => simpa using hdot

/-- A slash between a directory and what is in it is taken off, and no other. -/
lemma without_slash {tail slash : Text} (htail : tail ≠ [])
    (hrel : Path.isAbsolute tail = false) (hslash : slash = ['/'] ∨ slash = []) (y : Text) :
    without ['/'] (slash ++ (tail ++ y)) = tail ++ y := by
  rcases hslash with rfl | rfl
  · exact without_append ['/'] _
  · refine without_of_not ?_
    obtain ⟨c, tail, rfl⟩ := List.exists_cons_of_ne_nil htail
    have hc : c ≠ '/' := by simpa [Path.isAbsolute] using hrel
    simpa [eq_comm] using hc

/-- Without slashes there is no root in front. -/
lemma bare_of_no_slash {root : Path} {slash rest : Text}
    (hslash : slash = ['/'] ∨ slash = [] ∧ root.getLast? = some '/')
    (h : '/' ∉ without "./".toList root ++ (slash ++ rest)) :
    without "./".toList root ++ (slash ++ rest) = rest := by
  obtain ⟨hroot, hrest⟩ : '/' ∉ without "./".toList root ∧ '/' ∉ slash := by
    simp only [List.mem_append, not_or] at h
    exact ⟨h.1, h.2.1⟩
  obtain ⟨rfl, hlast⟩ : slash = [] ∧ root.getLast? = some '/' :=
    hslash.resolve_left fun heq => hrest (by simp [heq])
  suffices hnil : without "./".toList root = [] by
    rw [hnil]
    rfl
  by_cases hdot : "./".toList <+: root
  · obtain ⟨root, rfl⟩ := hdot
    rw [without_append] at hroot ⊢
    cases hend : root.getLast? with
    | none => exact List.getLast?_eq_none_iff.1 hend
    | some c =>
      rw [List.getLast?_append, hend] at hlast
      obtain rfl : c = '/' := Option.some.inj hlast
      exact absurd (List.mem_of_getLast? hend) hroot
  · rw [without_of_not hdot] at hroot
    exact absurd (List.mem_of_getLast? hlast) hroot

/-- What is added to a path below the root is added to it as seen from the root. -/
lemma relative_append {root d : Path} (hroot : root ≠ []) (hd : root.IsBelow d) (x : Text) :
    relative root (d ++ x) = relative root d ++ x := by
  obtain ⟨tail, htail, hrel, rfl⟩ := hd
  rcases without_root hroot hrel with ⟨rfl, hwithout⟩ | ⟨slash, hslash, hwithout⟩
  · have hcurrent : Path.components (without "./".toList ['.']) = [.current] := by decide
    have hd := hwithout []
    rw [List.append_nil, List.append_nil] at hd
    simp only [relative, hcurrent, hwithout, hd, true_or, if_true]
  · by_cases hcurrent : Path.components (without "./".toList root) = [.current]
    · have hd := hwithout []
      rw [List.append_nil, List.append_nil] at hd
      simp only [relative, hcurrent, hwithout, hd, true_or, if_true, List.append_assoc]
    · -- the root goes, and the slash after it
      have hall : ∀ y, relative root (root.join tail ++ y) = tail ++ y := by
        intro y
        unfold relative
        rw [hwithout y]
        dsimp only
        split_ifs with hplain
        · exact bare_of_no_slash hslash (by simpa using hplain.resolve_left hcurrent)
        · rw [expect?_eq_some_iff.2 rfl]
          exact without_slash htail hrel (hslash.imp_right And.left) y
      have hd := hall []
      rw [List.append_nil, List.append_nil] at hd
      rw [hall x, hd]

/-! ## Rules that spread and rules for directories -/

variable {rules : List IgnoreRule} {rule : IgnoreRule} {root p : Path} {isDir : Bool}

/-- A rule after the last exception settles what it applies to. -/
lemma ignores_of_applies (hmem : rule ∈ rules.reverse.takeWhile (!·.exception))
    (happlies : rule.applies (relative root p) isDir = true) :
    ignores rules root p isDir = true := by
  unfold ignores
  -- the search goes from the last rule back, and meets this one before any exception
  rw [← List.takeWhile_append_dropWhile (p := (!·.exception)) (l := rules.reverse),
    List.find?_append]
  cases hfind : (rules.reverse.takeWhile (!·.exception)).find?
      (·.applies (relative root p) isDir) with
  | none => exact absurd happlies (List.find?_eq_none.1 hfind rule hmem)
  | some first =>
    exact List.all_eq_true.1 List.all_takeWhile first (List.mem_of_find?_eq_some hfind)

/-- Rules for directories only say nothing about files. -/
lemma ignores_fileRules (rules : List IgnoreRule) (root p : Path) :
    ignores (rules.filter (!·.directoriesOnly)) root p false = ignores rules root p false := by
  unfold ignores
  rw [List.filter_reverse.symm, List.find?_filter]
  congr 2
  funext r
  cases hr : r.directoriesOnly <;> simp [IgnoreRule.applies, hr]

end IgnoreRules

namespace IgnoreFilter

variable {f : IgnoreFilter} {d : Path}

lemma exists_of_bind_eq_ok {ε α β : Type} {x : Except ε α} {g : α → Except ε β} {y : β}
    (h : x >>= g = .ok y) : ∃ v, g v = .ok y := by
  cases x with
  | error e => cases h
  | ok v => exact ⟨v, h⟩

/-- A filter keeps the root and whether hidden files are included as the configuration says. -/
lemma ofConfig_ok {top : FileTree} {config : ScanConfig} (h : ofConfig top config = .ok f) :
    f.root = config.root ∧ f.includeHidden = config.includeHidden := by
  unfold ofConfig at h
  -- with a further ignore file or without, what comes after is the same
  split at h
  on_goal 2 => split_ifs at h
  all_goals
    obtain ⟨further, h⟩ := exists_of_bind_eq_ok h
    obtain ⟨globs, h⟩ := exists_of_bind_eq_ok h
    obtain rfl := Except.ok.inj h
    exact ⟨rfl, rfl⟩

/-- The filter without its rules for directories only. -/
def fileRulesOnly (f : IgnoreFilter) : IgnoreFilter :=
  { f with rules := f.rules.filter (!·.directoriesOnly) }

/-- A directory matches a pattern that spreads: a glob, or a rule after the last exception that is
not for directories only. -/
def prunes (f : IgnoreFilter) (d : Path) : Bool :=
  (defaultGlobs ++ f.globs).any (fun g => g.spreads true && g.isMatch true d) ||
    (f.rules.reverse.takeWhile (!·.exception)).any fun r =>
      !r.directoriesOnly && r.glob.spreads false &&
        r.glob.isMatch false (IgnoreRules.relative f.root d)

/-- What matches a directory that is pruned matches whatever is added to it. -/
lemma ignores_append_of_prunes (h : f.prunes d = true) {x : Text}
    (hrelative : IgnoreRules.relative f.root (d ++ x) = IgnoreRules.relative f.root d ++ x)
    (isDir : Bool) : f.ignores (d ++ x) isDir = true := by
  rw [prunes, Bool.or_eq_true, List.any_eq_true, List.any_eq_true] at h
  rcases h with ⟨g, hg, hmatch⟩ | ⟨r, hr, hmatch⟩
  · obtain ⟨hspreads, hd⟩ := Bool.and_eq_true_iff.1 hmatch
    have hp := Glob.isMatch_append hspreads hd x
    have hany : ∀ {gs : List Glob}, g ∈ gs → gs.any (·.isMatch true (d ++ x)) = true :=
      fun hmem => List.any_eq_true.2 ⟨g, hmem, hp⟩
    unfold ignores
    rcases List.mem_append.1 hg with hg | hg <;> simp [hany hg]
  · simp only [Bool.and_eq_true, Bool.not_eq_true'] at hmatch
    obtain ⟨⟨hfiles, hspreads⟩, hd⟩ := hmatch
    have happlies : r.applies (IgnoreRules.relative f.root (d ++ x)) isDir = true := by
      rw [hrelative, IgnoreRule.applies, hfiles, Glob.isMatch_append hspreads hd x]
      rfl
    unfold ignores
    rw [IgnoreRules.ignores_of_applies hr happlies, Bool.or_true]

/-- The names of directories that are left out with everything in them. -/
def prunedNames : List Text :=
  [".git", "build", "CMakeFiles", "_deps", "out", "target", "third_party", "vendor",
    "node_modules"].map String.toList

/-- How the name of a build directory begins. -/
def buildBeginning : Text := "cmake-build-".toList

/-- The default patterns have one for each name that is pruned, and one for build directories. -/
lemma inside_mem_defaultGlobs : (∀ name ∈ prunedNames, Glob.inside name [] ∈ defaultGlobs) ∧
    Glob.inside buildBeginning [.star] ∈ defaultGlobs := by
  have hglobs : defaultGlobs = (prunedNames.take 2).map (Glob.inside · []) ++
      (Glob.inside buildBeginning [.star] ::
        ((prunedNames.drop 2).map (Glob.inside · []) ++ defaultGlobs.drop 10)) := rfl
  rw [hglobs]
  refine ⟨fun name hname => ?_, List.mem_append_right _ (List.mem_cons_self ..)⟩
  rw [← List.take_append_drop 2 prunedNames, List.mem_append] at hname
  rcases hname with hname | hname
  · exact List.mem_append_left _ (List.mem_map_of_mem hname)
  · exact List.mem_append_right _
      (List.mem_cons_of_mem _ (List.mem_append_left _ (List.mem_map_of_mem hname)))

/-- A file below a directory with one of those names is left out. -/
lemma ignores_of_mem_parts {p : Path} {name : Text} (hname : name ∈ p.parts.dropLast)
    (h : name ∈ prunedNames ∨ buildBeginning <+: name) (isDir : Bool) :
    f.ignores p isDir = true := by
  obtain ⟨above, below, hsplit, habove⟩ :=
    Path.exists_join_of_mem_dropLast '/' hname
  rw [show Text.join ['/'] p.parts = p from Path.join_splitAt '/' p] at hsplit
  suffices hany : defaultGlobs.any (·.isMatch true p) = true by simp [ignores, hany]
  rw [List.any_eq_true, hsplit]
  rcases h with h | ⟨tail, rfl⟩
  · -- the name is all of the part
    refine ⟨_, inside_mem_defaultGlobs.1 name h, ?_⟩
    have hmatch := @Glob.isMatch_inside above name [] below [] habove fun rest => by
      simp [Glob.restsOfAll, Glob.bytes]
    rwa [List.append_nil] at hmatch
  · -- a `*` takes the rest of the name
    refine ⟨_, inside_mem_defaultGlobs.2, Glob.isMatch_inside habove fun rest => ?_⟩
    rw [Glob.mem_restsOfAll_single, Glob.rests]
    exact Glob.afterMany_append rest (Glob.nil_mem_afterMany fun _ _ => rfl)

end IgnoreFilter

/-! ## What scans report -/

lemma FileTree.walk_nil (top : FileTree) (follow : Bool) : top.walk follow [] = [] := by
  have hstat : top.linkStat [] = .error .notFound := rfl
  unfold FileTree.walk
  rw [hstat]

namespace Scanner

variable {s : Scanner} {top : FileTree} {config : ScanConfig} {p : Path}

/-- The paths of the files that a scan reports. -/
def reported (s : Scanner) (top : FileTree) : List Path :=
  (s.scan top).map (·.absolutePath)

lemma absolutePath_scanPath (s : Scanner) (top : FileTree) (p : Path) (kind : SourceKind) :
    (s.scanPath top p kind).absolutePath = p := by
  unfold scanPath
  split
  · rfl
  · split_ifs
    · rfl
    · split <;> rfl

/-- A file is reported exactly if the walk finds it, its kind is asked for, and it is not left
out. -/
lemma mem_reported (s : Scanner) (top : FileTree) (p : Path) : p ∈ s.reported top ↔
    ⟨p, false⟩ ∈ top.walk s.config.followLinks s.config.root ∧
      SourceKind.accepts s.config.kinds p = true ∧ s.filter.ignores p false = false := by
  have hpaths : s.reported top = (s.sourceFiles top).map (·.1) := by
    rw [reported, scan, List.map_map]
    exact List.map_congr_left fun ⟨p, kind⟩ _ => s.absolutePath_scanPath top p kind
  rw [hpaths, sourceFiles]
  simp only [List.mem_map, List.mem_mergeSort, List.mem_filterMap, List.mem_filter,
    Option.map_eq_some_iff]
  constructor
  · rintro ⟨_, ⟨⟨path, isDir⟩, ⟨hwalk, hkept⟩, kind, hkind, rfl⟩, rfl⟩
    simp only [Bool.and_eq_true, Bool.not_eq_true'] at hkept
    obtain ⟨⟨rfl, hkept⟩, haccepts⟩ := hkept
    exact ⟨hwalk, haccepts, hkept⟩
  · rintro ⟨hwalk, haccepts, hkept⟩
    obtain ⟨hkind, -⟩ := (Option.any_eq_true_iff_get _ _).1 haccepts
    obtain ⟨kind, hkind⟩ := Option.isSome_iff_exists.1 hkind
    exact ⟨(p, kind), ⟨⟨p, false⟩, ⟨hwalk, by simp [hkept, haccepts]⟩, kind, hkind, rfl⟩, rfl⟩

/-- What a scan reports depends on the filter only through the files that it ignores. -/
lemma scan_congr {f : IgnoreFilter} (h : ∀ p, f.ignores p false = s.filter.ignores p false) :
    ({ s with filter := f } : Scanner).scan top = s.scan top := by
  unfold scan sourceFiles
  simp only [h]
  rfl

lemma ofConfig_eq (h : ofConfig top config = .ok s) : s.config = config ∧
    s.filter.root = config.root ∧ s.filter.includeHidden = config.includeHidden := by
  unfold ofConfig at h
  cases hf : IgnoreFilter.ofConfig top config with
  | error e => simp [hf] at h
  | ok f =>
    rw [hf] at h
    obtain rfl := Except.ok.inj h
    exact ⟨rfl, IgnoreFilter.ofConfig_ok hf⟩

/-- **Files are judged alone.** A file is reported exactly if the walk finds it, its kind is asked
for, and its own path is not left out. So rules for directories only have no effect, and whether
hidden things are left out matters for files whose own name is hidden and for no others. Pruned are
the directories with the default names, and those that match a pattern which spreads: they are left
out themselves, and nothing below them is reported. -/
theorem reported_judged_alone (h : ofConfig top config = .ok s) :
    (∀ p, p ∈ s.reported top ↔
      ⟨p, false⟩ ∈ top.walk config.followLinks config.root ∧
        SourceKind.accepts config.kinds p = true ∧ s.filter.ignores p false = false) ∧
    ({ s with filter := s.filter.fileRulesOnly } : Scanner).scan top = s.scan top ∧
    (∀ p, p ∈ s.reported top ↔
      p ∈ ({ s with filter := { s.filter with includeHidden := true } } : Scanner).reported top ∧
        (config.includeHidden = true ∨ IgnoreFilter.isHidden p = false)) ∧
    (∀ p ∈ s.reported top, ∀ name ∈ p.parts.dropLast,
      name ∉ IgnoreFilter.prunedNames ∧ ¬IgnoreFilter.buildBeginning <+: name) ∧
    ∀ d, s.filter.prunes d = true → s.filter.ignores d true = true ∧
      (config.root.IsBelow d → ∀ p ∈ s.reported top, ¬d.IsBelow p) := by
  obtain ⟨rfl, hroot, hhidden⟩ := ofConfig_eq h
  refine ⟨s.mem_reported top, scan_congr fun p => ?_, fun p => ?_, fun p hp name hname => ?_,
    fun d hd => ⟨?_, fun hbelow p hp hunder => ?_⟩⟩
  · unfold IgnoreFilter.ignores
    rw [show s.filter.fileRulesOnly.rules = s.filter.rules.filter (!·.directoriesOnly) from rfl,
      show s.filter.fileRulesOnly.root = s.filter.root from rfl, IgnoreRules.ignores_fileRules]
    rfl
  · rw [mem_reported, mem_reported, ← hhidden]
    unfold IgnoreFilter.ignores
    cases s.filter.includeHidden <;> cases IgnoreFilter.isHidden p <;> simp
  · have hkept := ((s.mem_reported top p).1 hp).2.2
    refine ⟨fun hmem => ?_, fun hbegins => ?_⟩
    · rw [IgnoreFilter.ignores_of_mem_parts hname (.inl hmem)] at hkept
      simp at hkept
    · rw [IgnoreFilter.ignores_of_mem_parts hname (.inr hbegins)] at hkept
      simp at hkept
  · have hself := IgnoreFilter.ignores_append_of_prunes (x := []) hd (by simp) true
    rwa [List.append_nil] at hself
  · obtain ⟨hwalk, -, hkept⟩ := (s.mem_reported top p).1 hp
    -- nothing is found at a root without a name
    have hne : s.config.root ≠ [] := by
      intro hnil
      rw [hnil, FileTree.walk_nil] at hwalk
      simp at hwalk
    obtain ⟨x, rfl⟩ := hunder.exists_append
    have hrelative := IgnoreRules.relative_append hne hbelow x
    rw [← hroot] at hrelative
    rw [IgnoreFilter.ignores_append_of_prunes hd hrelative] at hkept
    simp at hkept

/-! ## A project with an ignore file -/

/-- A directory `proj` with an ignore file and other things in it. -/
def project (rules : String) (others : List (Text × FileTree)) : FileTree :=
  .dir [("proj".toList, .dir ((".gitignore".toList, .file rules.toUTF8) :: others))]

variable (rules : String) (others : List (Text × FileTree))

lemma ofConfig_project : ofConfig (project rules others) { root := "proj".toList } =
    .ok { config := { root := "proj".toList },
          filter := ⟨"proj".toList, IgnoreRules.ofBytes rules.toUTF8, [], false⟩ } := by
  have hparts : Path.parts "proj/.gitignore".toList = ["proj".toList, ".gitignore".toList] := by
    decide
  have hfind : (project rules others).find "proj/.gitignore".toList = .ok
      [(".gitignore".toList, .file rules.toUTF8),
        ("proj".toList, .dir ((".gitignore".toList, .file rules.toUTF8) :: others))] := by
    unfold FileTree.find
    rw [if_neg (by decide), hparts]
    simp [FileTree.resolve, FileTree.node, FileTree.child?, project]
  have hread : (project rules others).readBytes "proj/.gitignore".toList = .ok rules.toUTF8 := by
    unfold FileTree.readBytes FileTree.stat
    rw [hfind]
    rfl
  have hrules : IgnoreFilter.rulesOf (project rules others)
      (Path.join "proj".toList ".gitignore".toList) = IgnoreRules.ofBytes rules.toUTF8 := by
    unfold IgnoreFilter.rulesOf
    rw [show Path.join "proj".toList ".gitignore".toList = "proj/.gitignore".toList by decide, hread]
  unfold ofConfig IgnoreFilter.ofConfig
  simp only [hrules]
  show Except.ok (Scanner.mk _ ⟨_, IgnoreRules.ofBytes rules.toUTF8 ++ [], [], _⟩) = _
  rw [List.append_nil]

lemma walk_project : (project rules others).walk false "proj".toList =
    ⟨"proj".toList, true⟩ :: (project rules others).walkBelow false
      (project rules others).walkDepth "proj".toList
      [("proj".toList, .dir ((".gitignore".toList, .file rules.toUTF8) :: others))]
      [["proj".toList]] := by
  have hparts : Path.parts "proj".toList = ["proj".toList] := by decide
  have hfind : (project rules others).find "proj".toList = .ok
      [("proj".toList, .dir ((".gitignore".toList, .file rules.toUTF8) :: others))] := by
    unfold FileTree.find
    rw [if_neg (by decide), hparts]
    simp [FileTree.resolve, FileTree.node, FileTree.child?, project]
  have hstat : (project rules others).linkStat "proj".toList = .ok
      (.dir ((".gitignore".toList, .file rules.toUTF8) :: others)) := by
    unfold FileTree.linkStat
    rw [hparts]
    simp [FileTree.resolve, FileTree.node, project]
    rfl
  unfold FileTree.walk
  rw [hstat, hfind]
  rfl

/-- A rule that spreads prunes what is inside `gen`, while a hidden directory is scanned. -/
theorem reported_judged_alone_spread :
    let top := project "gen/**\n"
      [("gen".toList, .dir [("x".toList, .dir [("a.hpp".toList, .file "".toUTF8)])]),
        (".cache".toList, .dir [("b.hpp".toList, .file "".toUTF8)])]
    let config : ScanConfig := { root := "proj".toList }
    ∃ s, ofConfig top config = .ok s ∧
      ⟨"proj/gen/x/a.hpp".toList, false⟩ ∈ top.walk config.followLinks config.root ∧
      s.filter.prunes "proj/gen/x".toList = true ∧
      (∀ p ∈ s.reported top, ¬Path.IsBelow "proj/gen/x".toList p) ∧
      s.filter.ignores "proj/.cache".toList true = true ∧
      "proj/.cache/b.hpp".toList ∈ s.reported top := by
  intro top config
  have hwalk : ⟨"proj/gen/x/a.hpp".toList, false⟩ ∈ top.walk false "proj".toList ∧
      ⟨"proj/.cache/b.hpp".toList, false⟩ ∈ top.walk false "proj".toList := by
    rw [show top.walk false "proj".toList = _ from walk_project _ _]
    decide +kernel
  let filter : IgnoreFilter :=
    ⟨"proj".toList, IgnoreRules.ofBytes "gen/**\n".toUTF8, [], false⟩
  obtain ⟨hd, hhidden, haccepts, hkept⟩ : filter.prunes "proj/gen/x".toList = true ∧
      filter.ignores "proj/.cache".toList true = true ∧
      SourceKind.accepts none "proj/.cache/b.hpp".toList = true ∧
      filter.ignores "proj/.cache/b.hpp".toList false = false := by
    decide +kernel
  have hbelow : Path.IsBelow "proj".toList "proj/gen/x".toList :=
    ⟨"gen/x".toList, by decide, by decide, by decide⟩
  obtain ⟨hmem, -, -, -, hprune⟩ := reported_judged_alone (ofConfig_project "gen/**\n" _)
  exact ⟨_, ofConfig_project _ _, hwalk.1, hd, (hprune _ hd).2 hbelow, hhidden,
    (hmem _).2 ⟨hwalk.2, haccepts, hkept⟩⟩

/-- A directory that a rule excludes and a hidden directory: both are left out by the filter, and the
files in them are reported. -/
theorem excluded_directories_reported :
    let top := project "generated/\n"
      [("generated".toList, .dir [("a.hpp".toList, .file "template<class T> T g;\n".toUTF8)]),
        (".cache".toList, .dir [("b.hpp".toList, .file "".toUTF8)])]
    ∃ s, ofConfig top { root := "proj".toList } = .ok s ∧
      s.filter.ignores "proj/generated".toList true = true ∧
      "proj/generated/a.hpp".toList ∈ s.reported top ∧
      s.filter.ignores "proj/.cache".toList true = true ∧
      "proj/.cache/b.hpp".toList ∈ s.reported top := by
  intro top
  have hwalk : ⟨"proj/generated/a.hpp".toList, false⟩ ∈ top.walk false "proj".toList ∧
      ⟨"proj/.cache/b.hpp".toList, false⟩ ∈ top.walk false "proj".toList := by
    rw [show top.walk false "proj".toList = _ from walk_project _ _]
    decide +kernel
  let filter : IgnoreFilter :=
    ⟨"proj".toList, IgnoreRules.ofBytes "generated/\n".toUTF8, [], false⟩
  obtain ⟨hrule, haccepts, hkept, hhidden, haccepts', hkept'⟩ :
      filter.ignores "proj/generated".toList true = true ∧
      SourceKind.accepts none "proj/generated/a.hpp".toList = true ∧
      filter.ignores "proj/generated/a.hpp".toList false = false ∧
      filter.ignores "proj/.cache".toList true = true ∧
      SourceKind.accepts none "proj/.cache/b.hpp".toList = true ∧
      filter.ignores "proj/.cache/b.hpp".toList false = false := by
    decide +kernel
  exact ⟨_, ofConfig_project _ _, hrule, (mem_reported _ _ _).2 ⟨hwalk.1, haccepts, hkept⟩,
    hhidden, (mem_reported _ _ _).2 ⟨hwalk.2, haccepts', hkept'⟩⟩

end Scanner

end TemplateFolding
