import TemplateFolding.Proofs.InPlaceTokens

/-!
# Lists in place

What the cursor reads is what a reader takes off the front of the text, for parameters and for
lists of any nesting. So taking one list after the other never asks for a part of the text that
cannot be taken, and the cursor moves on by whole lists.
-/

namespace TemplateFolding

open Text Parameter

namespace Attempt

variable {source before rest : Text} {d : Nat} {c : Cursor}

/-! ## Parameters in place -/

/-- Everything up to the next comma or bracket is read in place. -/
lemma reads_looseRun : Reads source d (looseRun source) looseRun? := by
  have hflat : Flat (!isEnd ·) := fun c e hc he => congrArg (!·) (flat_isEnd c e hc he)
  have hkeep : ∀ part : Text, Reads source d
      (if (trim part).isEmpty then fail else pure part : Attempt Text)
      fun t => if (trim part).isEmpty then none else some (part, t) := by
    intro part
    split_ifs
    · exact reads_fail
    · exact reads_pure part
  exact (reads_takeWhile hflat).bind hkeep

lemma reads_typeWithDefault : Reads source d (typeWithDefault source) typeWithDefault? := by
  refine (reads_typeKeyword.bind fun _ => (reads_takeWhile flat_isNameChar).bind fun name =>
    (reads_byte (x := '=') (by decide)).bind fun _ => reads_skipLayout.bind fun _ =>
      (reads_filledRun false).bind fun run =>
        reads_pure (TypeSpec.mk false (trim name) (trim run))).congr ?_
  intro t
  unfold typeWithDefault?
  cases typeKeyword? t with
  | none => rfl
  | some t =>
    simp only [Option.map_some, Option.bind_some, Option.bind_eq_bind]
    cases t.dropWhile isNameChar with
    | nil => rfl
    | cons c rest =>
      by_cases hc : c = '='
      · subst hc
        rfl
      · rw [expect?_of_ne hc]
        split
        · rename_i heq
          exact absurd (List.cons.inj heq).1 hc
        · rfl

lemma reads_typeWithoutDefault :
    Reads source d (typeWithoutDefault source) typeWithoutDefault? := by
  refine (reads_typeKeyword.bind fun _ => reads_skipLayout.bind fun _ =>
    ((reads_word "...".toList).optional (stays_word _)).bind fun pack =>
      reads_skipLayout.bind fun _ => (reads_takeWhile flat_isNameChar).bind fun name =>
        reads_pure (TypeSpec.mk pack.isSome (trim name) [])).congr ?_
  intro t
  unfold typeWithoutDefault?
  cases typeKeyword? t with
  | none => rfl
  | some t =>
    simp only [Option.map_some, Option.bind_some, Option.bind_eq_bind]
    cases expect? "...".toList (Text.skipLayout t) <;> rfl

lemma reads_typeParameter (standalone : Bool) :
    Reads source d (typeParameter source standalone) (typeParameter? standalone) := by
  refine ((reads_typeWithDefault.ending standalone).firstOf
    ((reads_typeWithoutDefault.ending standalone).firstOf reads_fail)).congr ?_
  intro t
  simp only [typeParameter?, Option.orElse_eq_orElse, Option.orElse_eq_or, Option.or_none]

section Nested

variable {nested : Attempt (List Parameter)} {lists : Reader (List Parameter)} {standalone : Bool}

/-- A template parameter is read in place, if its list is. -/
lemma reads_templateParameter (hn : Reads source d nested lists.read) :
    Reads source d (templateParameter source standalone nested)
      (templateParameter? standalone lists) :=
  hn.bind fun params => reads_skipLayout.bind fun _ =>
    (reads_typeParameter standalone).bind fun spec => reads_pure (Parameter.template params spec)

/-- A value is read in place up to the end of the parameter. -/
lemma reads_nonTypeParameter :
    Reads source d (ending source standalone (nonTypeParameter source standalone))
      (nonTypeParameter? standalone) := by
  refine ((((reads_filledRun true).ending standalone).firstOf reads_looseRun).bind fun run =>
    reads_pure (Parameter.nonType (trim run))).ending standalone |>.congr ?_
  intro t
  unfold nonTypeParameter?
  simp only [Option.orElse_eq_orElse, Option.orElse_eq_or]
  cases hrun : (filledRun? true t).filter (Parameter.atEnd standalone ·.2) with
  | some r =>
    have hend := (Option.filter_eq_some_iff.1 hrun).2
    simp [hend]
  | none =>
    cases looseRun? t with
    | none => rfl
    | some r =>
      simp only [Option.none_or, Option.bind_some, Option.filter_some]
      split_ifs <;> rfl

/-- A parameter is read in place, if the lists in it are. -/
lemma reads_parameter (hn : Reads source d nested lists.read) :
    Reads source d (parameter source standalone nested) (parameter? standalone lists) := by
  refine (((reads_typeParameter standalone).bind fun spec =>
    reads_pure (Parameter.type spec)).firstOf
      ((reads_templateParameter hn).firstOf (reads_nonTypeParameter.firstOf reads_fail))).congr ?_
  intro t
  simp only [parameter?, Option.orElse_eq_orElse, Option.orElse_eq_or, Option.or_none]
  cases typeParameter? standalone t <;> rfl

end Nested

/-! ## Lists in place -/

lemma length_le_byteLength (t : Text) : t.length ≤ t.byteLength := by
  induction t with
  | nil => exact Nat.le_refl 0
  | cons c t ih =>
    have hpos := c.utf8Size_pos
    rw [byteLength_cons, List.length_cons]
    omega

/-- What follows a parameter in a list, if at most so many rounds are left. -/
lemma agrees_afterItem {items : Reader Parameter} {more : Attempt (List Parameter)} {p : Parameter}
    (hmore : ∀ ⦃before rest'⦄, source = before ++ rest' → rest'.length ≤ rest.length →
      Agrees source d (items.commaList rest') (more ⟨before.byteLength, d⟩))
    (hsplit : source = before ++ rest) :
    Agrees source d
      (match rest with
        | ',' :: rest' => (items.commaList (Text.skipLayout rest')).map fun (ps, r) => (p :: ps, r)
        | '>' :: rest' => some ([p], rest')
        | _ => none)
      ((peek source >>= fun b? => match b? with
        | some ',' => byte source ',' >>= fun _ => skipLayout source >>= fun _ =>
            more >>= fun ps => pure (p :: ps)
        | some '>' => byte source '>' >>= fun _ => pure [p]
        | _ => fail : Attempt (List Parameter)) ⟨before.byteLength, d⟩) := by
  rw [bind_of_some (peek_apply hsplit)]
  have hcomma : rest.bytes.head? = some ',' ↔ rest.head? = some ',' :=
    head?_bytes_eq_some_iff (by decide)
  have hclose : rest.bytes.head? = some '>' ↔ rest.head? = some '>' :=
    head?_bytes_eq_some_iff (by decide)
  split
  · rename_i rest'
    rw [hcomma.2 rfl]
    obtain ⟨before₁, hsplit₁, hcomma⟩ := (reads_byte (x := ',') (by decide) hsplit).of_some
    obtain ⟨before₂, hsplit₂, hlayout⟩ := (reads_skipLayout hsplit₁).of_some
    have hshort : (Text.skipLayout rest').length ≤ (',' :: rest').length :=
      Nat.le_succ_of_le (length_skipLayout_le rest')
    show Agrees source d _ ((byte source ',' >>= fun _ => skipLayout source >>= fun _ =>
      more >>= fun ps => pure (p :: ps)) ⟨before.byteLength, d⟩)
    rw [bind_of_some hcomma, bind_of_some hlayout]
    exact (hmore hsplit₂ hshort).map (p :: ·)
  · rename_i rest'
    rw [hclose.2 rfl]
    exact ((reads_byte (x := '>') (by decide)).bind fun _ => reads_pure [p]) hsplit
  · rename_i hnotComma hnotClose
    generalize rest.bytes.head? = b? at hcomma hclose ⊢
    split
    · obtain ⟨tail, rfl⟩ := List.head?_eq_some_iff.1 (hcomma.1 rfl)
      exact absurd rfl (hnotComma tail)
    · obtain ⟨tail, rfl⟩ := List.head?_eq_some_iff.1 (hclose.1 rfl)
      exact absurd rfl (hnotClose tail)
    · exact .failed _

section Items

variable {item : Attempt Parameter} {items : Reader Parameter}

/-- Parameters up to a closing bracket are read in place, if there are rounds enough for the
characters that are left. -/
lemma agrees_commaList (hi : Reads source d item items.read) (rounds : Nat) :
    ∀ ⦃before rest⦄, source = before ++ rest → rest.length < rounds →
      Agrees source d (items.commaList rest)
        (commaList source item rounds ⟨before.byteLength, d⟩) := by
  induction rounds with
  | zero =>
    intro before rest _ hrounds
    exact absurd hrounds (Nat.not_lt_zero _)
  | succ rounds ih =>
    intro before rest hsplit hrounds
    rw [items.commaList_eq]
    refine (hi hsplit).bind (fun p rest => match Text.skipLayout rest with
      | ',' :: rest => (items.commaList (Text.skipLayout rest)).map fun (ps, r) => (p :: ps, r)
      | '>' :: rest => some ([p], rest)
      | _ => none) fun p before₁ rest₁ hsplit₁ hread => ?_
    obtain ⟨before₂, hsplit₂, hlayout⟩ := (reads_skipLayout hsplit₁).of_some
    rw [bind_of_some hlayout]
    refine agrees_afterItem (fun before' rest' hsplit' hle => ih hsplit' ?_) hsplit₂
    have hshorter := items.shorter hread
    have hskip := length_skipLayout_le rest₁
    omega

/-- As many rounds as the text has bytes are enough. -/
lemma reads_commaList (hi : Reads source d item items.read) :
    Reads source d (commaList source item (source.byteLength + 1)) items.commaList := by
  intro before rest hsplit
  refine agrees_commaList hi _ hsplit ?_
  have hlength := length_le_byteLength rest
  rw [hsplit, byteLength_append]
  omega

/-- A list in angles: its first bracket, and then the second one or parameters. -/
lemma angleList?_eq (items : Reader Parameter) (t : Text) :
    angleList? items t = (expect? ['<'] (Text.skipLayout t)).bind fun t =>
      ((expect? ['>'] (Text.skipLayout t)).map fun rest => ([], rest)).or
        (items.commaList (Text.skipLayout t)) := by
  unfold angleList?
  cases Text.skipLayout t with
  | nil => rfl
  | cons c t =>
    by_cases hc : c = '<'
    · subst hc
      rw [show expect? ['<'] ('<' :: t) = some t from rfl, Option.bind_some]
      split
      · rename_i t' heq
        obtain ⟨-, rfl⟩ := List.cons.inj heq
        cases Text.skipLayout t with
        | nil => rfl
        | cons e t =>
          by_cases he : e = '>'
          · subst he
            rfl
          · rw [expect?_of_ne he]
            split
            · rename_i heq
              exact absurd (List.cons.inj heq).1 he
            · rfl
      · rename_i hother
        exact absurd rfl (hother t)
    · rw [expect?_of_ne hc]
      split
      · rename_i heq
        exact absurd (List.cons.inj heq).1 hc
      · rfl

/-- The keyword and what follows it are read in place. -/
lemma reads_keywordList (hi : Reads source d item items.read) :
    Reads source d (keywordList source item) (keywordList? items) := by
  have hbody : ∀ close : Option Unit, Reads source d
      (if close.isSome then pure [] else commaList source item (source.byteLength + 1))
      fun t => if close.isSome then some ([], t) else items.commaList t := by
    intro close
    cases close with
    | none => exact reads_commaList hi
    | some _ => exact reads_pure []
  refine ((reads_word keyword).bind fun _ => reads_skipLayout.bind fun _ =>
    (reads_byte (x := '<') (by decide)).bind fun _ => reads_skipLayout.bind fun _ =>
      ((reads_byte (x := '>') (by decide)).optional (stays_byte (by decide))).bind hbody).congr ?_
  intro t
  unfold keywordList?
  cases expect? keyword t with
  | none => rfl
  | some t =>
    simp only [Option.map_some, Option.bind_some, angleList?_eq]
    cases expect? ['<'] (Text.skipLayout t) with
    | none => rfl
    | some t =>
      simp only [Option.map_some, Option.bind_some]
      cases expect? ['>'] (Text.skipLayout t) <;> rfl

end Items

variable {standalone : Bool} {levels : Nat}

/-- With all lists open that may be open, no other is read. -/
lemma parameterList_of_le (h : maxNesting ≤ d) (position : Nat) :
    parameterList source standalone (levels + 1) ⟨position, d⟩ = .ok (none, ⟨position, d⟩) := by
  show (if maxNesting ≤ d then fail else _ : Attempt (List Parameter)) _ = _
  rw [if_pos h]
  rfl

/-- The list is counted as open while it is read, and the cursor is put back if there is none. -/
lemma parameterList_of_lt (h : d < maxNesting) {position : Nat} {params? : Option (List Parameter)}
    (hlist : keywordList source
      (parameter source standalone (parameterList source standalone levels)) ⟨position, d + 1⟩ =
        .ok (params?, c)) :
    parameterList source standalone (levels + 1) ⟨position, d⟩ =
      .ok (params?, ⟨if params?.isSome then c.position else position, c.depth - 1⟩) := by
  show (if maxNesting ≤ d then fail else setDepth (d + 1) >>= fun _ => _ :
    Attempt (List Parameter)) _ = _
  rw [if_neg (Nat.not_le.2 h)]
  show (optional (keywordList source (parameter source standalone
    (parameterList source standalone levels))) >>= _) ⟨position, d + 1⟩ = _
  rw [bind_of_some (optional_of_ok hlist)]
  cases params? <;> rfl

/-- What stands in a list, if the lists in it are read alike. -/
lemma reads_openList {nested : Attempt (List Parameter)} {lists : Reader (List Parameter)}
    (standalone : Bool) (hn : Reads source d nested lists.read) :
    Reads source d (keywordList source (parameter source standalone nested))
      (keywordList? (Parameter.parameter standalone lists)) :=
  reads_keywordList (reads_parameter hn)

/-- With `d` lists open there is room for the others. -/
lemma reads_parameterList (standalone : Bool) (levels : Nat) :
    ∀ d, d ≤ maxNesting → maxNesting < levels + d →
      Reads source d (parameterList source standalone levels)
        (Parameter.parameterList standalone (maxNesting - d)).read := by
  induction levels with
  | zero =>
    intro d hle hlt
    omega
  | succ levels ih =>
    intro d hle hlt before rest hsplit
    obtain heq | hd : d = maxNesting ∨ d < maxNesting := Nat.eq_or_lt_of_le hle
    · rw [parameterList_of_le heq.ge, heq, Nat.sub_self]
      exact .failed _
    · have hroom : maxNesting - d = maxNesting - (d + 1) + 1 := by omega
      have h := reads_openList standalone (ih (d + 1) hd (by omega)) hsplit
      rw [hroom]
      show Agrees source d (keywordList? (Parameter.parameter standalone
        (Parameter.parameterList standalone (maxNesting - (d + 1)))) rest) _
      generalize keywordList? _ rest = result at h ⊢
      cases result with
      | none =>
        obtain ⟨position, hout⟩ := h.of_none
        rw [parameterList_of_lt hd hout]
        exact .failed _
      | some x =>
        obtain ⟨before', hsplit', hout⟩ := h.of_some
        rw [parameterList_of_lt hd hout]
        exact .read hsplit'

/-- A list that is not there leaves the cursor where it is. -/
lemma stays_parameterList (hd : d < maxNesting) (hlevels : maxNesting ≤ levels + d) :
    Stays source d (parameterList source standalone (levels + 1)) := by
  intro before rest c hsplit h
  have hlist := reads_openList standalone
    (reads_parameterList standalone levels (d + 1) hd (by omega)) hsplit
  generalize keywordList? _ rest = result at hlist
  cases result with
  | none =>
    obtain ⟨position, hout⟩ := hlist.of_none
    rw [parameterList_of_lt hd hout] at h
    simpa using h.symm
  | some x =>
    obtain ⟨before', _, hout⟩ := hlist.of_some
    rw [parameterList_of_lt hd hout] at h
    simp at h

/-! ## One list after the other -/

/-- What taking a list does to the cursor. -/
structure Moves (source : Text) (c : Cursor) (params? : Option (List Parameter)) (c' : Cursor) :
    Prop where
  /-- No list is left open. -/
  depth_eq : c'.depth = 0
  /-- Without a list the cursor stays. -/
  stays : params? = none → c'.position = c.position
  /-- A list leads forward, -/
  forward : params?.isSome → c.position < c'.position
  /-- to a place between two characters, -/
  boundary : params?.isSome → source.IsBoundary c'.position
  /-- right behind a closing bracket. -/
  closing : params?.isSome → source.utf8[c'.position - 1]? = some '>'.toUInt8

/-- Taking a list off the text moves the cursor behind the list, or leaves it where it is. -/
lemma nextList_moves (hsplit : source = before ++ rest) :
    ∃ before', source = before' ++ (Declaration.next rest).2 ∧
      nextList source ⟨before.byteLength, 0⟩ =
        .ok ((Declaration.next rest).1, ⟨before'.byteLength, 0⟩) ∧
      Moves source ⟨before.byteLength, 0⟩ (Declaration.next rest).1 ⟨before'.byteLength, 0⟩ := by
  have hreads := reads_parameterList false (maxNesting + 1) 0 (Nat.zero_le _) (Nat.lt_succ_self _)
    hsplit
  rw [Nat.sub_zero] at hreads
  unfold Declaration.next
  cases hread : (Parameter.parameterList false maxNesting).read rest with
  | none =>
    rw [hread] at hreads
    obtain ⟨position, hout⟩ := hreads.of_none
    have hstays := stays_parameterList (by decide) (Nat.le_refl _) hsplit hout
    rw [hstays] at hout
    refine ⟨before, hsplit, hout, rfl, fun _ => rfl, ?_, ?_, ?_⟩ <;> simp
  | some x =>
    rw [hread] at hreads
    obtain ⟨before', hsplit', hout⟩ := hreads.of_some
    -- the list ends with its closing bracket, which stands in front of the rest
    obtain ⟨list, hlist⟩ := parameterList_closing maxNesting hread
    have hbefore : before' = (before ++ list) ++ ['>'] := by
      have happend : before' ++ x.2 = ((before ++ list) ++ ['>']) ++ x.2 := by
        rw [← hsplit', hsplit, ← hlist]
        simp
      exact List.append_cancel_right happend
    have hsize : before'.byteLength = before.byteLength + byteLength list + 1 := by
      rw [hbefore, byteLength_append, byteLength_append, byteLength_singleton (by decide)]
    refine ⟨before', hsplit', hout, rfl, nofun, fun _ => ?_, fun _ => ⟨before', _, hsplit', rfl⟩,
      fun _ => ?_⟩
    · dsimp only
      omega
    · have hbytes : source.utf8 = utf8 (before ++ list) ++ utf8 ('>' :: x.2) := by
        rw [← utf8_append, hsplit', hbefore, List.append_assoc, List.singleton_append]
      rw [hbytes, hsize, Nat.add_sub_cancel, ← byteLength_append, ← length_utf8,
        List.getElem?_append_right (Nat.le_refl _), Nat.sub_self]
      rfl

/-- What a run of attempts to take a list does: it gives what taking lists off the text gives, and
moves the cursor on by one list at a time. -/
lemma takeLists_moves (count : Nat) (last? : Option (List Parameter))
    (hsplit : source = before ++ rest) :
    ∃ calls, takeLists source count ⟨before.byteLength, 0⟩ = .ok calls ∧
      calls.map (·.1) = Declaration.takeLists count rest ∧
      List.IsChain (fun x y => Moves source x.2 y.1 y.2)
        ((last?, ⟨before.byteLength, 0⟩) :: calls) := by
  induction count generalizing before rest last? with
  | zero => exact ⟨[], rfl, rfl, .singleton _⟩
  | succ count ih =>
    obtain ⟨before', hsplit', hnext, hmoves⟩ := nextList_moves hsplit
    obtain ⟨calls, hcalls, hgives, hchain⟩ := ih (Declaration.next rest).1 hsplit'
    refine ⟨((Declaration.next rest).1, ⟨before'.byteLength, 0⟩) :: calls, ?_, ?_, ?_⟩
    · rw [takeLists, hnext]
      show (takeLists source count ⟨before'.byteLength, 0⟩ >>= _) = _
      rw [hcalls]
      rfl
    · rw [List.map_cons, hgives]
      rfl
    · exact .cons_cons hmoves hchain

/-- Taking any number of lists off any text never faults: a part of the text can be taken exactly
if both its ends are in order and between characters, and only such parts are asked for. Each
attempt gives the next list and moves the cursor behind it, or leaves it where it is. -/
theorem takeLists_safe (source : Text) (count : Nat) :
    (∀ start stop c, (∃ r, slice source start stop c = .ok r) ↔
      start ≤ stop ∧ stop ≤ source.byteLength ∧ source.IsBoundary start ∧
        source.IsBoundary stop) ∧
    ∃ calls, takeLists source count {} = .ok calls ∧
      calls.map (·.1) = Declaration.takeLists count source ∧
      List.IsChain (fun x y => Moves source x.2 y.1 y.2) ((none, {}) :: calls) := by
  refine ⟨fun start stop c => ?_, takeLists_moves count none (List.nil_append source).symm⟩
  rw [slice_ok_iff, isSome_byteSlice?_iff]
  constructor
  · rintro ⟨hle, hstart, hstop⟩
    exact ⟨hle, hstop.le, hstart, hstop⟩
  · rintro ⟨hle, -, hstart, hstop⟩
    exact ⟨hle, hstart, hstop⟩

end Attempt

end TemplateFolding
