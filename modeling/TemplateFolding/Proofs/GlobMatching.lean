import Mathlib.Tactic.Common
import TemplateFolding.Glob.Match

/-!
# What globs match besides

A glob is matched piece by piece, and a piece leaves something of the path for the next. What a
piece leaves of a path it also leaves of a longer one, with the addition at the end. A glob that ends
in a wildcard for whole directories takes the addition in as well, so it matches everything below a
directory that it matches. A glob that ends in a name does not.
-/

namespace TemplateFolding.Glob

variable {slashes : Bool} {t : Token} {ts us : List Token} {input rest : List UInt8}

/-! ## One piece after the other -/

lemma mem_restsOfAll_cons : rest ∈ restsOfAll slashes (t :: ts) input ↔
    ∃ m ∈ rests slashes t input, rest ∈ restsOfAll slashes ts m := by
  rw [restsOfAll, List.mem_eraseDups, List.mem_flatMap]

/-- What is left by the first pieces is passed on to the others. -/
lemma mem_restsOfAll_append : rest ∈ restsOfAll slashes (ts ++ us) input ↔
    ∃ m ∈ restsOfAll slashes ts input, rest ∈ restsOfAll slashes us m := by
  induction ts generalizing input with
  | nil => simp [restsOfAll]
  | cons t ts ih =>
    rw [List.cons_append, mem_restsOfAll_cons]
    simp only [ih, mem_restsOfAll_cons]
    exact ⟨fun ⟨m, hm, m', hm', hrest⟩ => ⟨m', ⟨m, hm, hm'⟩, hrest⟩,
      fun ⟨m', ⟨m, hm, hm'⟩, hrest⟩ => ⟨m, hm, m', hm', hrest⟩⟩

lemma mem_restsOfAll_single : rest ∈ restsOfAll slashes [t] input ↔ rest ∈ rests slashes t input := by
  simp [restsOfAll]

/-! ## Longer paths -/

lemma self_mem_afterMany (takes : UInt8 → Bool) (input : List UInt8) :
    input ∈ afterMany takes input := by
  cases input <;> simp [afterMany]

/-- What a piece may repeat can be taken to the end. -/
lemma nil_mem_afterMany {takes : UInt8 → Bool} (h : ∀ b ∈ input, takes b = true) :
    [] ∈ afterMany takes input := by
  induction input with
  | nil => simp [afterMany]
  | cons b bs ih =>
    obtain ⟨hb, hbs⟩ := List.forall_mem_cons.1 h
    simp [afterMany, hb, ih hbs]

section Longer

-- what is added at the end
variable (x : List UInt8)

/-- A beginning that can be taken off a path can be taken off a longer one. -/
lemma after?_append {beginning : List UInt8} (h : after? beginning input = some rest) :
    after? beginning (input ++ x) = some (rest ++ x) := by
  fun_induction after? beginning input with
  | case1 => simpa [after?] using h
  | case2 => simp at h
  | case3 b bs cs ih =>
    rw [List.cons_append, after?, if_pos rfl]
    exact ih h
  | case4 => simp at h

/-- A piece that repeats can take the same off a longer path. -/
lemma afterMany_append {takes : UInt8 → Bool} (h : rest ∈ afterMany takes input) :
    rest ++ x ∈ afterMany takes (input ++ x) := by
  induction input with
  | nil =>
    obtain rfl : rest = [] := by simpa [afterMany] using h
    exact self_mem_afterMany takes x
  | cons b bs ih =>
    rw [afterMany, List.mem_cons] at h
    rw [List.cons_append, afterMany, List.mem_cons]
    rcases h with rfl | h
    · exact .inl rfl
    · split_ifs at h ⊢ with hb
      · exact .inr (ih h)
      · simp at h

/-- Whatever ends with a slash can be taken off a longer path. -/
lemma afterSlashes_append (h : rest ∈ afterSlashes input) :
    rest ++ x ∈ afterSlashes (input ++ x) := by
  induction input with
  | nil => simp [afterSlashes] at h
  | cons b bs ih =>
    rw [List.cons_append, afterSlashes]
    rw [afterSlashes] at h
    split_ifs at h ⊢ with hb
    · rcases List.mem_cons.1 h with rfl | h
      · exact List.mem_cons_self ..
      · exact List.mem_cons_of_mem _ (ih h)
    · exact ih h

mutual

/-- What a piece can take off a path it can take off a longer one. -/
theorem rests_append : (t : Token) → {input rest : List UInt8} → rest ∈ rests slashes t input →
    rest ++ x ∈ rests slashes t (input ++ x)
  | .literal c, input, rest, h => by
    rw [rests, Option.mem_toList] at h ⊢
    exact after?_append x h
  | .any, [], _, h => by simp [rests] at h
  | .any, b :: bs, rest, h => by
    simp only [rests, List.cons_append] at h ⊢
    split_ifs at h ⊢ <;> simp_all
  | .star, input, rest, h => by
    rw [rests] at h ⊢
    exact afterMany_append x h
  | .leadingDirs, input, rest, h => by
    rw [rests, List.mem_cons] at h ⊢
    exact h.imp (congrArg (· ++ x)) (afterSlashes_append x)
  | .trailingDirs, input, rest, h => by
    rw [rests] at h ⊢
    cases hslash : after? [slash] input with
    | none => simp [hslash] at h
    | some below =>
      rw [hslash, Option.map_some, Option.getD_some] at h
      rw [after?_append x hslash, Option.map_some, Option.getD_some]
      exact afterMany_append x h
  | .innerDirs, input, rest, h => by
    rw [rests] at h ⊢
    cases hslash : after? [slash] input with
    | none => simp [hslash] at h
    | some below =>
      rw [hslash, List.mem_cons] at h
      rw [after?_append x hslash, List.mem_cons]
      exact h.imp (congrArg (· ++ x)) (afterSlashes_append x)
  | .charClass _ _, [], _, h => by simp [rests] at h
  | .charClass negated ranges, b :: bs, rest, h => by
    simp only [rests, List.cons_append] at h ⊢
    split_ifs at h ⊢ <;> simp_all
  | .alternatives branches, input, rest, h => by
    rw [rests] at h ⊢
    split_ifs at h ⊢ with hvoid
    · simp_all
    · exact restsOfBranches_append branches h

theorem restsOfAll_append : (ts : List Token) → {input rest : List UInt8} →
    rest ∈ restsOfAll slashes ts input → rest ++ x ∈ restsOfAll slashes ts (input ++ x)
  | [], input, rest, h => by simp_all [restsOfAll]
  | t :: ts, input, rest, h => by
    rw [mem_restsOfAll_cons] at h ⊢
    obtain ⟨m, hm, hrest⟩ := h
    exact ⟨m ++ x, rests_append t hm, restsOfAll_append ts hrest⟩

/-- What one of several branches can take off a path it can take off a longer one. -/
theorem restsOfBranches_append : (branches : List (List Token)) → {input rest : List UInt8} →
    rest ∈ restsOfBranches slashes branches input →
      rest ++ x ∈ restsOfBranches slashes branches (input ++ x)
  | [], _, _, h => by simp [restsOfBranches] at h
  | b :: bs, input, rest, h => by
    rw [restsOfBranches, List.mem_append] at h ⊢
    refine h.imp (fun h => ?_) (restsOfBranches_append bs)
    split_ifs at h ⊢
    · simp at h
    · exact restsOfAll_append b h

end

end Longer

/-! ## Globs that spread -/

/-- The glob ends in `**`, in `*` after `**`, or in a `*` that takes slashes. -/
def spreads (slashes : Bool) (g : Glob) : Bool :=
  match g.tokens.reverse with
  | [.leadingDirs] => true
  | .trailingDirs :: _ => true
  | .star :: .innerDirs :: _ => true
  | .star :: .leadingDirs :: _ => true
  | .star :: _ => slashes
  | _ => false

/-- A path ends in a name, which a `*` takes. -/
lemma exists_name (input : List UInt8) : ∃ name, (name = input ∨ name ∈ afterSlashes input) ∧
    [] ∈ afterMany (wildTakes false) name := by
  induction input with
  | nil => exact ⟨[], .inl rfl, by simp [afterMany]⟩
  | cons b bs ih =>
    obtain ⟨name, hname, hnil⟩ := ih
    by_cases hb : b = slash
    · -- the slash ends a directory, and the name is further on
      refine ⟨name, .inr ?_, hnil⟩
      rw [afterSlashes, if_pos hb]
      exact List.mem_cons.2 hname
    · rcases hname with rfl | hname
      · refine ⟨b :: name, .inl rfl, ?_⟩
        rw [afterMany, if_pos (by simp [wildTakes, hb])]
        exact List.mem_cons_of_mem _ hnil
      · refine ⟨name, .inr ?_, hnil⟩
        rw [afterSlashes, if_neg hb]
        exact hname

lemma bytes_append (p q : Text) : bytes (p ++ q) = bytes p ++ bytes q :=
  List.flatMap_append

/-- What is asked of a path that has no file name is no matter for a glob that ends in a wildcard. -/
lemma isMatch_iff (hlast : ts.getLast? = some .trailingDirs ∨ ts.getLast? = some .star) (p : Text) :
    (⟨ts⟩ : Glob).isMatch slashes p = true ↔ [] ∈ restsOfAll slashes ts (bytes p) := by
  have hperiod : asksForPeriod slashes ts = false := by
    rcases hlast with h | h <;> simp [asksForPeriod, h]
  unfold isMatch
  split
  · -- a glob that is `**` alone ends in no such wildcard
    rename_i h
    rw [show ts = [.leadingDirs] from h] at hlast
    simp at hlast
  · simp [hperiod]

/-- The ends of globs that take in whatever is added to a path. -/
def Absorbs (slashes : Bool) (ts : List Token) : Prop :=
  ∀ input x, [] ∈ restsOfAll slashes ts input → [] ∈ restsOfAll slashes ts (input ++ x)

/-- A glob that ends in `**` takes in whatever is added. -/
lemma absorbs_trailingDirs : Absorbs slashes [.trailingDirs] := by
  intro input x h
  rw [mem_restsOfAll_single, rests] at h ⊢
  cases hslash : after? [slash] input with
  | none => simp [hslash] at h
  | some below =>
    rw [after?_append x hslash]
    exact nil_mem_afterMany fun _ _ => rfl

/-- A star that takes slashes takes in whatever is added. -/
lemma absorbs_star : Absorbs true [.star] := by
  intro input x _
  rw [mem_restsOfAll_single, rests]
  exact nil_mem_afterMany fun _ _ => rfl

/-- A `*` takes the name at the end, and what comes before it are directories. -/
lemma absorbs_dirs_star (ht : t = .leadingDirs ∨ t = .innerDirs) :
    Absorbs slashes [t, .star] := by
  have hstar : ∀ name, [] ∈ afterMany (wildTakes false) name →
      [] ∈ afterMany (wildTakes slashes) name := by
    cases slashes with
    | false => exact fun _ h => h
    | true => exact fun _ _ => nil_mem_afterMany fun _ _ => rfl
  intro input x h
  rw [mem_restsOfAll_cons] at h ⊢
  simp only [mem_restsOfAll_single] at h ⊢
  obtain ⟨m, hm, -⟩ := h
  -- the name that was taken before is of no use: a slash may have been added after it
  rcases ht with rfl | rfl
  · obtain ⟨name, hname, hnil⟩ := exists_name (input ++ x)
    refine ⟨name, by simpa only [rests, List.mem_cons] using hname, ?_⟩
    rw [rests]
    exact hstar name hnil
  · cases hslash : after? [slash] input with
    | none => simp [rests, hslash] at hm
    | some below =>
      obtain ⟨name, hname, hnil⟩ := exists_name (below ++ x)
      refine ⟨name, by simpa only [rests, after?_append x hslash, List.mem_cons] using hname, ?_⟩
      rw [rests]
      exact hstar name hnil

/-- What takes in whatever is added does so behind any pieces. -/
lemma Absorbs.append (h : Absorbs slashes us) : Absorbs slashes (ts ++ us) := by
  intro input x hnil
  obtain ⟨m, hm, hend⟩ := mem_restsOfAll_append.1 hnil
  exact mem_restsOfAll_append.2 ⟨m ++ x, restsOfAll_append x ts hm, h m x hend⟩

/-- A glob that spreads is `**`, or ends in what takes in whatever is added. -/
lemma absorbs_of_spreads {g : Glob} (hg : g.spreads slashes = true) :
    g.tokens = [.leadingDirs] ∨ ∃ before ending, g.tokens = before ++ ending ∧
      Absorbs slashes ending ∧ (ending.getLast? = some .trailingDirs ∨
        ending.getLast? = some .star) := by
  unfold spreads at hg
  split at hg
  case h_1 h => exact .inl (List.reverse_eq_iff.1 h)
  case h_2 before h =>
    exact .inr ⟨before.reverse, [.trailingDirs], by simpa using List.reverse_eq_iff.1 h,
      absorbs_trailingDirs, .inl rfl⟩
  case h_3 before h =>
    exact .inr ⟨before.reverse, [.innerDirs, .star], by simpa using List.reverse_eq_iff.1 h,
      absorbs_dirs_star (.inr rfl), .inr rfl⟩
  case h_4 before h =>
    exact .inr ⟨before.reverse, [.leadingDirs, .star], by simpa using List.reverse_eq_iff.1 h,
      absorbs_dirs_star (.inl rfl), .inr rfl⟩
  case h_5 before _ _ h =>
    subst hg
    exact .inr ⟨before.reverse, [.star], by simpa using List.reverse_eq_iff.1 h, absorbs_star,
      .inr rfl⟩
  case h_6 => simp at hg

/-- **Globs that spread** match every continuation of a path that they match. -/
theorem isMatch_append {g : Glob} (hg : g.spreads slashes = true) {p : Text}
    (h : g.isMatch slashes p = true) (q : Text) : g.isMatch slashes (p ++ q) = true := by
  obtain ⟨ts⟩ := g
  rcases absorbs_of_spreads hg with hlead | ⟨before, ending, hts, habsorbs, hending⟩
  · obtain rfl : ts = [.leadingDirs] := hlead
    rfl
  · obtain rfl : ts = before ++ ending := hts
    have hlast : (before ++ ending).getLast? = some .trailingDirs ∨
        (before ++ ending).getLast? = some .star := by
      rcases hending with h | h <;> simp [List.getLast?_append, h]
    rw [isMatch_iff hlast] at h ⊢
    rw [bytes_append]
    exact habsorbs.append _ _ h

/-! ## Directories with a name -/

/-- The glob of what is inside a directory whose name is given, or starts as given if it may go
on. -/
def inside (name : Text) (more : List Token) : Glob :=
  ⟨.leadingDirs :: (name.map .literal ++ (more ++ [.trailingDirs]))⟩

/-- Literal pieces take the characters of a name off a path. -/
lemma mem_restsOfAll_literals (name : Text) (rest : List UInt8) :
    rest ∈ restsOfAll slashes (name.map .literal) (bytes name ++ rest) := by
  induction name with
  | nil => simp [restsOfAll, bytes]
  | cons c name ih =>
    have hread : ∀ x y : List UInt8, after? x (x ++ y) = some y := by
      intro x y
      induction x with
      | nil => rfl
      | cons b x ih => simpa [after?] using ih
    rw [List.map_cons, mem_restsOfAll_cons]
    refine ⟨bytes name ++ rest, ?_, ih⟩
    rw [rests, show bytes (c :: name) ++ rest = String.utf8EncodeChar c ++ (bytes name ++ rest) by
      simp [bytes], hread]
    simp

/-- Directories above can be taken off a path, down to their last slash. -/
lemma mem_rests_leadingDirs {above : Text} (h : above = [] ∨ above.getLast? = some '/')
    (rest : List UInt8) : rest ∈ rests slashes .leadingDirs (bytes above ++ rest) := by
  have hslash : ∀ x : List UInt8, rest ∈ afterSlashes (x ++ slash :: rest) := by
    intro x
    induction x with
    | nil => simp [afterSlashes]
    | cons b x ih =>
      rw [List.cons_append, afterSlashes]
      split_ifs
      · exact List.mem_cons_of_mem _ ih
      · exact ih
  rw [rests]
  rcases h with rfl | h
  · exact List.mem_cons_self ..
  · obtain ⟨above, rfl⟩ := List.getLast?_eq_some_iff.1 h
    rw [bytes_append, List.append_assoc]
    exact List.mem_cons_of_mem _ (hslash _)

/-- Everything inside a directory is matched, at any depth, if its name is. -/
theorem isMatch_inside {above name tail below : Text} {more : List Token}
    (habove : above = [] ∨ above.getLast? = some '/')
    (hmore : ∀ rest, rest ∈ restsOfAll true more (bytes tail ++ rest)) :
    (inside name more).isMatch true (above ++ (name ++ tail) ++ '/' :: below) = true := by
  have hlast : (inside name more).tokens.getLast? = some .trailingDirs := by
    simp [inside, List.getLast?_cons, List.getLast?_append]
  have hsplit : bytes (above ++ (name ++ tail) ++ '/' :: below) =
      bytes above ++ (bytes name ++ (bytes tail ++ slash :: bytes below)) := by
    simp only [bytes_append, List.append_assoc]
    rfl
  refine (isMatch_iff (.inl hlast) _).2 ?_
  rw [hsplit, inside, mem_restsOfAll_cons]
  refine ⟨_, mem_rests_leadingDirs habove _, ?_⟩
  rw [mem_restsOfAll_append]
  refine ⟨_, mem_restsOfAll_literals name _, ?_⟩
  rw [mem_restsOfAll_append]
  refine ⟨_, hmore _, ?_⟩
  rw [mem_restsOfAll_single, rests]
  exact nil_mem_afterMany fun _ _ => rfl

end TemplateFolding.Glob
