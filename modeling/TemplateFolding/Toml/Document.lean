import TemplateFolding.Text.Reader
import TemplateFolding.Toml.Quoted

/-!
# Reading a TOML document

Keys, values and statements are read off the front of the text by consuming readers, which is what
makes reading end. A document is its statements, each on a line of its own.
-/

namespace TemplateFolding.Toml

open Text

/-- Keys have fewer names than this, and arrays and tables nest less deeply. -/
def nestingLimit : Nat := 80

/-! ## Keys -/

/-- Whether a character may stand in a name without quotes. -/
def isNameChar (c : Char) : Bool :=
  c.isAlphanum || c == '-' || c == '_'

/-- Reads one name of a key, quoted on one line or bare. -/
def readName (t : Text) : Option (Text × Text) :=
  match t with
  | '"' :: rest => Quote.read ⟨'"', false⟩ false rest
  | '\x27' :: rest => Quote.read ⟨'\x27', false⟩ false rest
  | _ => if t.takeWhile isNameChar = [] then none
      else some (t.takeWhile isNameChar, t.dropWhile isNameChar)

theorem length_readName {t name rest : Text} (h : readName t = some (name, rest)) :
    rest.length < t.length := by
  unfold readName at h
  split at h
  · exact Nat.lt_succ_of_lt (Quote.length_read h)
  · exact Nat.lt_succ_of_lt (Quote.length_read h)
  · split at h
    · simp at h
    · next hne =>
      simp only [Option.some.injEq, Prod.mk.injEq] at h
      exact h.2 ▸ length_dropWhile_lt hne

/-- Reads names with dots between them. Spaces may stand around each name. -/
def readNames (t : Text) : Option (Key × Text) :=
  match _name : readName (skipSpaces t) with
  | none => none
  | some (name, rest) =>
    match _rest : skipSpaces rest with
    | '.' :: rest' => (readNames rest').map fun (key, r) => (⟨name, key.names⟩, r)
    | rest' => some (⟨name, []⟩, rest')
termination_by t.length
decreasing_by
  have h₁ := length_readName _name
  have h₂ := length_skipSpaces_le t
  have h₃ := length_skipSpaces_le rest
  simp only [_rest, List.length_cons] at h₃
  omega

theorem length_readNames {t rest : Text} {key : Key} (h : readNames t = some (key, rest)) :
    rest.length < t.length := by
  fun_induction readNames t generalizing key rest with
  | case1 => simp at h
  | case2 t name rest' hname rest'' hrest ih =>
    obtain ⟨⟨key', r⟩, h', heq⟩ := Option.map_eq_some_iff.1 h
    have h₁ := length_readName hname
    have h₂ := length_skipSpaces_le t
    have h₃ := length_skipSpaces_le rest'
    have h₄ := ih h'
    simp only [hrest, List.length_cons] at h₃
    simp only [Prod.mk.injEq] at heq
    obtain ⟨_, rfl⟩ := heq
    omega
  | case3 t name rest' hname =>
    have h₁ := length_readName hname
    have h₂ := length_skipSpaces_le t
    have h₃ := length_skipSpaces_le rest'
    simp only [Option.some.injEq, Prod.mk.injEq] at h
    obtain ⟨_, rfl⟩ := h
    omega

/-- Reads a key. -/
def keyReader : Reader Key where
  read t := (readNames t).filter fun (key, _) => key.names.length < nestingLimit
  shorter h := length_readNames (Option.filter_eq_some_iff.1 h).1

/-! ## Values -/

/-- The text without leading spaces, line endings and comments. -/
def skipGap (inComment : Bool) : Text → Text
  | [] => []
  | '\n' :: rest => skipGap false rest
  | '\r' :: '\n' :: rest => skipGap false rest
  | c :: rest =>
    if inComment then
      if isPlain c then skipGap true rest else c :: rest
    else if isSpace c then skipGap false rest
    else if c = '#' then skipGap true rest
    else c :: rest

theorem length_skipGap_le (inComment : Bool) (t : Text) :
    (skipGap inComment t).length ≤ t.length := by
  fun_induction skipGap inComment t <;> simp only [List.length_cons, List.length_nil] <;> omega

/-- Reads the items of an array, up to and including its closing bracket. A comma may follow the
last one. -/
def readItems (item : Reader Item) (t : Text) : Option (List Item × Text) :=
  match _start : skipGap false t with
  | ']' :: rest => some ([], rest)
  | start =>
    match _item : item.read start with
    | none => none
    | some (a, rest) =>
      match _rest : skipGap false rest with
      | ',' :: rest' => (readItems item rest').map fun (as, r) => (a :: as, r)
      | ']' :: rest' => some ([a], rest')
      | _ => none
termination_by t.length
decreasing_by
  have h₁ := length_skipGap_le false t
  have h₂ := item.shorter _item
  have h₃ := length_skipGap_le false rest
  rw [_start] at h₁
  simp only [_rest, List.length_cons] at h₃
  omega

theorem length_readItems (item : Reader Item) {t rest : Text} {items : List Item}
    (h : readItems item t = some (items, rest)) : rest.length < t.length := by
  fun_induction readItems item t generalizing items rest with
  | case1 t rest' hstart =>
    have h₁ := length_skipGap_le false t
    simp only [hstart, List.length_cons] at h₁
    simp only [Option.some.injEq, Prod.mk.injEq] at h
    obtain ⟨_, rfl⟩ := h
    omega
  | case2 => simp at h
  | case3 t a rest' rest'' hrest hne hitem ih =>
    obtain ⟨⟨items', r⟩, h', heq⟩ := Option.map_eq_some_iff.1 h
    have h₁ := length_skipGap_le false t
    have h₂ := item.shorter hitem
    have h₃ := length_skipGap_le false rest'
    have h₄ := ih h'
    simp only [hrest, List.length_cons] at h₃
    simp only [Prod.mk.injEq] at heq
    obtain ⟨_, rfl⟩ := heq
    omega
  | case4 t a rest' rest'' hrest hne hitem =>
    have h₁ := length_skipGap_le false t
    have h₂ := item.shorter hitem
    have h₃ := length_skipGap_le false rest'
    simp only [hrest, List.length_cons] at h₃
    simp only [Option.some.injEq, Prod.mk.injEq] at h
    obtain ⟨_, rfl⟩ := h
    omega
  | case5 => simp at h

/-- Reads a key, an equals sign and an item. -/
def assignmentReader (item : Reader Item) : Reader (Key × Item) where
  read t :=
    match keyReader.read t with
    | some (key, '=' :: rest) =>
      (item.read (skipSpaces rest)).map fun (a, r) => ((key, a), skipSpaces r)
    | _ => none
  shorter := by
    intro t a rest h
    split at h
    · next key rest' hkey =>
      obtain ⟨⟨b, r⟩, hitem, heq⟩ := Option.map_eq_some_iff.1 h
      have h₁ := keyReader.shorter hkey
      have h₂ := item.shorter hitem
      have h₃ := length_skipSpaces_le rest'
      have h₄ := length_skipSpaces_le r
      simp only [List.length_cons] at h₁
      simp only [Prod.mk.injEq] at heq
      obtain ⟨_, rfl⟩ := heq
      omega
    · simp at h

/-- Reads assignments with commas between them, up to and including the closing brace. -/
def readAssignments (assignment : Reader (Key × Item)) (t : Text) :
    Option (List (Key × Item) × Text) :=
  match _first : assignment.read t with
  | none => none
  | some (a, ',' :: rest) =>
    (readAssignments assignment rest).map fun (as, r) => (a :: as, r)
  | some (a, '\x7d' :: rest) => some ([a], rest)
  | some _ => none
termination_by t.length
decreasing_by
  have := assignment.shorter _first
  simp only [List.length_cons] at this
  omega

theorem length_readAssignments (assignment : Reader (Key × Item)) {t rest : Text}
    {as : List (Key × Item)} (h : readAssignments assignment t = some (as, rest)) :
    rest.length < t.length := by
  fun_induction readAssignments assignment t generalizing as rest with
  | case1 => simp at h
  | case2 t a rest' hfirst ih =>
    obtain ⟨⟨as', r⟩, h', heq⟩ := Option.map_eq_some_iff.1 h
    have h₁ := assignment.shorter hfirst
    have h₂ := ih h'
    simp only [List.length_cons] at h₁
    simp only [Prod.mk.injEq] at heq
    obtain ⟨_, rfl⟩ := heq
    omega
  | case3 t a rest' hfirst =>
    have h₁ := assignment.shorter hfirst
    simp only [List.length_cons] at h₁
    simp only [Option.some.injEq, Prod.mk.injEq] at h
    obtain ⟨_, rfl⟩ := h
    omega
  | case4 => simp at h

/-- Reads what is written between braces, up to and including the closing one. -/
def readTable (item : Reader Item) (t : Text) : Option (Item × Text) :=
  match skipSpaces t with
  | '\x7d' :: rest => some (.table .braces [], rest)
  | start => do
    let (assignments, rest) ← readAssignments (assignmentReader item) start
    let entries ← Entries.ofAssignments assignments
    some (.table .braces entries, rest)

theorem length_readTable (item : Reader Item) {t rest : Text} {a : Item}
    (h : readTable item t = some (a, rest)) : rest.length < t.length := by
  have hle := length_skipSpaces_le t
  unfold readTable at h
  split at h
  · next rest' hstart =>
    simp only [hstart, List.length_cons] at hle
    simp only [Option.some.injEq, Prod.mk.injEq] at h
    obtain ⟨_, rfl⟩ := h
    omega
  · simp only [Option.bind_eq_bind, Option.bind_eq_some_iff, Option.some.injEq,
      Prod.mk.injEq] at h
    obtain ⟨⟨as, r⟩, has, entries, _, _, rfl⟩ := h
    exact Nat.lt_of_lt_of_le (length_readAssignments _ has) hle

/-- Reads a value that is neither an array nor a table. -/
def readScalar (t : Text) : Option (Item × Text) :=
  match readQuoted t with
  | some (quoted, rest) => some (.text quoted, rest)
  | none => readWord t

theorem length_readScalar {t rest : Text} {a : Item} (h : readScalar t = some (a, rest)) :
    rest.length < t.length := by
  unfold readScalar at h
  split at h
  · next hquoted =>
    simp only [Option.some.injEq, Prod.mk.injEq] at h
    exact h.2 ▸ length_readQuoted hquoted
  · exact length_readWord h

/-- Reads a value in which at most `levels` arrays and tables nest. -/
def itemReader : (levels : Nat) → Reader Item
  | 0 => ⟨readScalar, length_readScalar⟩
  | levels + 1 =>
    { read := fun
        | '[' :: rest =>
          (readItems (itemReader levels) rest).map fun (items, r) => (.array items, r)
        | '\x7b' :: rest => readTable (itemReader levels) rest
        | t => readScalar t
      shorter := by
        intro t a rest h
        split at h
        · obtain ⟨⟨items, r⟩, hitems, heq⟩ := Option.map_eq_some_iff.1 h
          simp only [Prod.mk.injEq] at heq
          obtain ⟨_, rfl⟩ := heq
          exact Nat.lt_succ_of_lt (length_readItems _ hitems)
        · exact Nat.lt_succ_of_lt (length_readTable _ h)
        · exact length_readScalar h }

/-! ## Documents -/

/-- Reads a statement. -/
def readStatement (t : Text) : Option (Statement × Text) :=
  match t with
  | '[' :: '[' :: rest => do
    let (key, rest) ← keyReader.read rest
    some (.elementHeader key, ← expect? [']', ']'] rest)
  | '[' :: rest => do
    let (key, rest) ← keyReader.read rest
    some (.header key, ← expect? [']'] rest)
  | _ => do
    let ((key, item), rest) ← (assignmentReader (itemReader (nestingLimit - 1))).read t
    some (.assignment key item, rest)

theorem length_readStatement {t rest : Text} {s : Statement}
    (h : readStatement t = some (s, rest)) : rest.length < t.length := by
  unfold readStatement at h
  split at h
  all_goals
    simp only [Option.bind_eq_bind, Option.bind_eq_some_iff, Option.some.injEq,
      Prod.mk.injEq, expect?_eq_some_iff] at h
  · obtain ⟨⟨key, r⟩, hkey, _, rfl, _, rfl⟩ := h
    have := keyReader.shorter hkey
    simp only [List.length_append, List.length_cons] at this ⊢
    omega
  · obtain ⟨⟨key, r⟩, hkey, _, rfl, _, rfl⟩ := h
    have := keyReader.shorter hkey
    simp only [List.length_append, List.length_cons] at this ⊢
    omega
  · obtain ⟨⟨_, r⟩, hassignment, _, rfl⟩ := h
    exact (assignmentReader _).shorter hassignment

/-- The text without leading spaces and the comment after them. -/
def skipComment (t : Text) : Text :=
  match skipSpaces t with
  | '#' :: rest => rest.dropWhile isPlain
  | t => t

theorem length_skipComment_le (t : Text) : (skipComment t).length ≤ t.length := by
  have hle := length_skipSpaces_le t
  unfold skipComment
  split
  · next rest hstart =>
    have := length_dropWhile_le isPlain rest
    simp only [hstart, List.length_cons] at hle
    omega
  · exact hle

/-- The text after the current line, if nothing but spaces and a comment is left on it. -/
def afterLine? (t : Text) : Option Text :=
  match skipComment t with
  | [] => some []
  | '\n' :: rest => some rest
  | '\r' :: '\n' :: rest => some rest
  | _ => none

theorem length_afterLine? {t rest : Text} (h : afterLine? t = some rest) :
    rest.length ≤ t.length - 1 := by
  have hle := length_skipComment_le t
  unfold afterLine? at h
  split at h
  · simp_all
  · next hcons =>
    simp only [hcons, List.length_cons, Option.some.injEq] at hle h
    subst h
    omega
  · next hcons =>
    simp only [hcons, List.length_cons, Option.some.injEq] at hle h
    subst h
    omega
  · simp at h

/-- Reads the statements of a document. -/
def readStatements (t : Text) : Option (List Statement) :=
  if _empty : t = [] then some []
  else
    match _blank : afterLine? t with
    | some rest => readStatements rest
    | none =>
      match _statement : readStatement (skipSpaces t) with
      | none => none
      | some (s, rest) =>
        match _end : afterLine? rest with
        | none => none
        | some rest' => (readStatements rest').map (s :: ·)
termination_by t.length
decreasing_by
  · have h₁ := length_afterLine? _blank
    have h₂ := List.length_pos_iff.2 _empty
    omega
  · have h₁ := length_readStatement _statement
    have h₂ := length_skipSpaces_le t
    have h₃ := length_afterLine? _end
    omega

/-- Reads a document. A byte order mark may stand in front of it. -/
def readDocument (t : Text) : Option Entries := do
  let body :=
    match t with
    | '\uFEFF' :: rest => rest
    | t => t
  Entries.ofStatements (← readStatements body)

end TemplateFolding.Toml
