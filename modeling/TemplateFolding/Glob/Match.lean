import TemplateFolding.Glob.Basic

/-!
# Matching paths against globs

A path is matched as the bytes of its text. `?` and a class take one byte each, while a literal
character takes all of its bytes. With `slashes` set, `*` and `?` also take slashes.

Matching computes every rest that a token can leave; a glob matches if nothing can be left.

Where `..` ends a path, the path has no file name. A glob that asks for a name ending in a period
does not match it, even though the bytes fit; a glob that only compares text does.
-/

namespace TemplateFolding.Glob

/-- The bytes of a text. -/
def bytes (t : Text) : List UInt8 :=
  t.flatMap String.utf8EncodeChar

/-- The byte of a slash. -/
def slash : UInt8 := 0x2F

/-- The bytes that a range of a class stands for, as closed ranges. The bytes of its two characters
are written one after the other, with the hyphen between the last of the one and the first of the
other. -/
def byteRanges (r : Char × Char) : List (UInt8 × UInt8) :=
  let single (b : UInt8) := (b, b)
  let lo := String.utf8EncodeChar r.1
  let hi := String.utf8EncodeChar r.2
  if r.1 = r.2 then lo.map single
  else
    lo.dropLast.map single ++
      (match lo.getLast?, hi.head? with
      | some a, some b => [(a, b)]
      | _, _ => []) ++
      (hi.drop 1).map single

/-- Whether a class takes a byte. -/
def classTakes (negated : Bool) (ranges : List (Char × Char)) (b : UInt8) : Bool :=
  negated != ((ranges.flatMap byteRanges).any fun (lo, hi) => decide (lo ≤ b ∧ b ≤ hi))

/-- Whether a wildcard takes a byte. -/
def wildTakes (slashes : Bool) (b : UInt8) : Bool :=
  slashes || b != slash

/-- What is left after a fixed beginning. -/
def after? : (beginning input : List UInt8) → Option (List UInt8)
  | [], input => some input
  | _ :: _, [] => none
  | b :: bs, c :: cs => if b = c then after? bs cs else none

/-- What can be left after any number of bytes that are taken. -/
def afterMany (takes : UInt8 → Bool) : List UInt8 → List (List UInt8)
  | [] => [[]]
  | b :: bs => (b :: bs) :: if takes b then afterMany takes bs else []

/-- What can be left after any bytes and a slash. -/
def afterSlashes : List UInt8 → List (List UInt8)
  | [] => []
  | b :: bs => if b = slash then bs :: afterSlashes bs else afterSlashes bs

mutual

/-- Whether an alternative is empty, groups without alternatives included. -/
def isVoid : Token → Bool
  | .alternatives branches => branchesVoid branches
  | _ => false

/-- Whether all tokens of a branch are void. -/
def branchVoid : List Token → Bool
  | [] => true
  | t :: ts => isVoid t && branchVoid ts

/-- Whether all branches are void. -/
def branchesVoid : List (List Token) → Bool
  | [] => true
  | b :: bs => branchVoid b && branchesVoid bs

end

mutual

/-- What a token can leave of an input. -/
def rests (slashes : Bool) : Token → List UInt8 → List (List UInt8)
  | .literal c, input => (after? (String.utf8EncodeChar c) input).toList
  | .any, input =>
    match input with
    | b :: bs => if wildTakes slashes b then [bs] else []
    | [] => []
  | .star, input => afterMany (wildTakes slashes) input
  | .leadingDirs, input => input :: afterSlashes input
  | .trailingDirs, input => ((after? [slash] input).map (afterMany fun _ => true)).getD []
  | .innerDirs, input =>
    match after? [slash] input with
    | some rest => rest :: afterSlashes rest
    | none => []
  | .charClass negated ranges, input =>
    match input with
    | b :: bs => if classTakes negated ranges b then [bs] else []
    | [] => []
  | .alternatives branches, input =>
    if branchesVoid branches then [input] else restsOfBranches slashes branches input

/-- What the tokens of a branch can leave of an input, one after the other. -/
def restsOfAll (slashes : Bool) : List Token → List UInt8 → List (List UInt8)
  | [], input => [input]
  | t :: ts, input => ((rests slashes t input).flatMap (restsOfAll slashes ts)).eraseDups

/-- What the branches that are not void can leave of an input. -/
def restsOfBranches (slashes : Bool) : List (List Token) → List UInt8 → List (List UInt8)
  | [], _ => []
  | b :: bs, input =>
    (if branchVoid b then [] else restsOfAll slashes b input) ++ restsOfBranches slashes bs input

end

/-! ## Paths without a file name -/

/-- The text of tokens that are all literal. -/
def literalText? : List Token → Option Text
  | [] => some []
  | .literal c :: rest => (literalText? rest).map (c :: ·)
  | _ :: _ => none

/-- Whether tokens are a plain text that is more than the period before an extension. -/
def isPlainEnding (tokens : List Token) : Bool :=
  (literalText? tokens).any (· != ['.'])

/-- Whether a glob compares a path with a plain text: the whole path, its end after a `*` that takes
slashes, or its last components if there are at least two. -/
def comparesText (slashes : Bool) : List Token → Bool
  | .leadingDirs :: .star :: rest => slashes && isPlainEnding rest
  | .star :: rest => slashes && isPlainEnding rest
  | .leadingDirs :: rest => (literalText? rest).any (·.contains '/')
  | tokens => (literalText? tokens).isSome

/-- Whether a glob asks for a file name that ends in a period. -/
def asksForPeriod (slashes : Bool) (tokens : List Token) : Bool :=
  !comparesText slashes tokens &&
    match tokens.getLast? with
    | some (.literal '.') => true
    | _ => false

/-- Whether `..` ends a path. -/
def endsInParent (path : Text) : Bool :=
  path == ['.', '.'] || ['/', '.', '.'].isSuffixOf path

end TemplateFolding.Glob

namespace TemplateFolding

/-- Whether a glob matches a whole path. One that is `**` and nothing else matches everything. -/
def Glob.isMatch (g : Glob) (slashes : Bool) (path : Text) : Bool :=
  match g.tokens with
  | [.leadingDirs] => true
  | tokens =>
    !(Glob.endsInParent path && Glob.asksForPeriod slashes tokens) &&
      (Glob.restsOfAll slashes tokens (Glob.bytes path)).contains []

end TemplateFolding
