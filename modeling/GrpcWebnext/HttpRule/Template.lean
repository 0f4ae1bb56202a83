import Mathlib.Data.List.Basic
import GrpcWebnext.Lib.Utf8
import GrpcWebnext.Metadata

/-!
# Path templates

`parse_template`, `match_segments` and the percent-decoding of what a segment captures. Slicing a
`str` off a character boundary and indexing behind the end of a list are panics here too.
-/

namespace GrpcWebnext
namespace HttpRule

inductive Panic where
  | charBoundary
  | sliceRange
  | index
  deriving DecidableEq

/-! ### Text -/

def trimMatches (drop : Char → Bool) (s : List Char) : List Char :=
  ((s.dropWhile drop).reverse.dropWhile drop).reverse

def splitAtFirst (sep : Char) (s : List Char) : Option (List Char × List Char) :=
  match s.dropWhile (· ≠ sep) with
  | [] => none
  | _ :: after => some (s.takeWhile (· ≠ sep), after)

def components (path : List Char) : List (List Char) :=
  ((trimMatches (· = '/') path).splitOn '/').filter fun s => !s.isEmpty

def fieldPath (field : List Char) : List String := (field.splitOn '.').map String.ofList

/-- A slice of a `str` may begin or end before these bytes. -/
def isCharBoundary : Bytes → Bool
  | [] => true
  | b :: _ => !Utf8.continuation b

def percentDecodeBytes : Bytes → Except Panic Bytes
  | [] => .ok []
  | c :: rest =>
    if c = 37 then
      match rest with
      | a :: b :: rest' =>
        if isCharBoundary (a :: b :: rest') && isCharBoundary rest' then
          match Metadata.fromHex a b with
          | some byte => (byte :: ·) <$> percentDecodeBytes rest'
          | none => (c :: ·) <$> percentDecodeBytes (a :: b :: rest')
        else .error .charBoundary
      | short => (c :: ·) <$> percentDecodeBytes short
    else (c :: ·) <$> percentDecodeBytes rest
termination_by structural bytes => bytes

/-- `percent_decode` of any text. -/
def percentDecode (s : String) : Except Panic String :=
  (fun bytes => String.ofList (Utf8.lossy bytes)) <$> percentDecodeBytes (Utf8.encode s)

/-! ### Templates -/

inductive Segment where
  | literal (lit : String)
  | single (field : List String)
  | rest (field : List String)
  deriving DecidableEq

/-- `strip_prefix('{')`, then `strip_suffix('}')`. -/
def strip : List Char → Option (List Char)
  | '{' :: s => if s.getLast? = some '}' then some s.dropLast else none
  | _ => none

def parseSegment (seg : List Char) : Segment :=
  match strip seg with
  | some inner =>
    let (field, pattern) := (splitAtFirst '=' inner).getD (inner, ['*'])
    if pattern = ['*', '*'] then .rest (fieldPath field) else .single (fieldPath field)
  | none => .literal (String.ofList seg)

/-- `parse_template`: a trailing `:verb` is ignored. -/
def parseTemplate (template : String) : List Segment :=
  (components (template.toList.takeWhile (· ≠ ':'))).map parseSegment

abbrev PathVar := List String × String

/-- The loop of `match_segments`, from component `i` on. -/
def matchFrom (parts : List String) : List Segment → Nat → List PathVar → Except Panic (Option (List PathVar))
  | [], i, vars => .ok (if i = parts.length then some vars else none)
  | .literal lit :: segments, i, vars =>
    if parts[i]? = some lit then matchFrom parts segments (i + 1) vars else .ok none
  | .single field :: segments, i, vars =>
    match parts[i]? with
    | none => .ok none
    | some part => do
      let value ← percentDecode part
      matchFrom parts segments (i + 1) (vars ++ [(field, value)])
  | .rest field :: segments, i, vars =>
    if i ≤ parts.length then do
      let rest ← (parts.drop i).mapM percentDecode
      matchFrom parts segments parts.length (vars ++ [(field, "/".intercalate rest)])
    else .error .sliceRange

def matchSegments (segments : List Segment) (path : String) : Except Panic (Option (List PathVar)) :=
  matchFrom ((components path.toList).map String.ofList) segments 0 []

end HttpRule
end GrpcWebnext
