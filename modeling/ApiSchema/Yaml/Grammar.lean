import ApiSchema.Yaml.Node
import ApiSchema.Yaml.Token

/-!
From tokens to the tree of a document.

Each function reads one construct of the grammar from the front of the tokens and gives what is
left. Steps bound the recursion; between two tokens there are never more than four. A place where a
node may be missing holds the empty scalar.
-/

namespace ApiSchema
namespace Yaml

open Node (nothing)

/-- What tag handles stand for. -/
abbrev TagTable := List (String × Tag)

def standardTags : TagTable :=
  [("!", .ofString "!"), ("!!", .ofString "tag:yaml.org,2002:")]

/-- The tag of a handle and a suffix. Without a handle the suffix is all of it. -/
def resolveTag (tags : TagTable) (handle : String) (suffix : Tag) : Option Tag :=
  if handle = "" then some suffix
  else ((tags ++ standardTags).lookup handle).map (· ++ suffix)

def nextIsIn (tokens : List Token) (stops : List Token) : Bool :=
  match tokens with
  | t :: _ => stops.contains t
  | [] => false

/-- The anchor and tag before a node, at most one of each. -/
def readProperties (tags : TagTable) :
    List Token → Option (Option String × Option Tag × List Token)
  | .anchor name :: .tag handle suffix :: rest => do
    return (some name, some (← resolveTag tags handle suffix), rest)
  | .anchor name :: rest => some (some name, none, rest)
  | .tag handle suffix :: .anchor name :: rest => do
    return (some name, some (← resolveTag tags handle suffix), rest)
  | .tag handle suffix :: rest => do return (none, some (← resolveTag tags handle suffix), rest)
  | tokens => some (none, none, tokens)

mutual

/-- A node. Block collections may only stand where `block` holds, and an unindented sequence only
where `indentless` does. -/
def readNode (tags : TagTable) (steps : Nat) (block indentless : Bool) (tokens : List Token) :
    Option (Node String × List Token) :=
  match steps with
  | 0 => none
  | steps + 1 =>
    match tokens with
    | .alias name :: rest => some (.alias name, rest)
    | _ => do
      let (anchor, tag, tokens) ← readProperties tags tokens
      match tokens with
      | .scalar text plain :: rest =>
        return (.scalar anchor tag plain text, rest)
      | .flowSequenceStart :: rest =>
        let (items, rest) ← readFlowItems tags steps true rest
        return (.sequence anchor tag items, rest)
      | .flowMappingStart :: rest =>
        let (pairs, rest) ← readFlowPairs tags steps true rest
        return (.mapping anchor tag pairs, rest)
      | .blockEntry :: _ =>
        if indentless then
          let (items, rest) ← readIndentlessItems tags steps tokens
          return (.sequence anchor tag items, rest)
        else if anchor.isSome || tag.isSome then return (nothing anchor tag, tokens)
        else none
      | .blockSequenceStart :: rest =>
        if block then
          let (items, rest) ← readBlockItems tags steps rest
          return (.sequence anchor tag items, rest)
        else if anchor.isSome || tag.isSome then return (nothing anchor tag, tokens)
        else none
      | .blockMappingStart :: rest =>
        if block then
          let (pairs, rest) ← readBlockPairs tags steps rest
          return (.mapping anchor tag pairs, rest)
        else if anchor.isSome || tag.isSome then return (nothing anchor tag, tokens)
        else none
      | _ => if anchor.isSome || tag.isSome then return (nothing anchor tag, tokens) else none

/-- A node, or nothing before one of some tokens. -/
def readOptional (tags : TagTable) (steps : Nat) (block indentless : Bool) (stops : List Token)
    (tokens : List Token) : Option (Node String × List Token) :=
  match steps with
  | 0 => none
  | steps + 1 =>
    if nextIsIn tokens stops then some (nothing none none, tokens)
    else readNode tags steps block indentless tokens

def readValue (tags : TagTable) (steps : Nat) (block : Bool) (stops : List Token)
    (tokens : List Token) : Option (Node String × List Token) :=
  match steps with
  | 0 => none
  | steps + 1 =>
    match tokens with
    | .value :: rest => readOptional tags steps block block stops rest
    | _ => some (nothing none none, tokens)

/-- The items of a block sequence up to and over its end. -/
def readBlockItems (tags : TagTable) (steps : Nat) (tokens : List Token) :
    Option (List (Node String) × List Token) :=
  match steps with
  | 0 => none
  | steps + 1 =>
    match tokens with
    | .blockEntry :: rest => do
      let (item, rest) ← readOptional tags steps true false [.blockEntry, .blockEnd] rest
      let (items, rest) ← readBlockItems tags steps rest
      return (item :: items, rest)
    | .blockEnd :: rest => some ([], rest)
    | _ => none

/-- The items of a sequence that is not indented; it has no end of its own. -/
def readIndentlessItems (tags : TagTable) (steps : Nat) (tokens : List Token) :
    Option (List (Node String) × List Token) :=
  match steps with
  | 0 => none
  | steps + 1 =>
    match tokens with
    | .blockEntry :: rest => do
      let (item, rest) ←
        readOptional tags steps true false [.blockEntry, .key, .value, .blockEnd] rest
      let (items, rest) ← readIndentlessItems tags steps rest
      return (item :: items, rest)
    | _ => some ([], tokens)

def readBlockPairs (tags : TagTable) (steps : Nat) (tokens : List Token) :
    Option (List (Node String × Node String) × List Token) :=
  match steps with
  | 0 => none
  | steps + 1 =>
    match tokens with
    | .key :: rest => do
      let stops := [.key, .value, .blockEnd]
      let (key, rest) ← readOptional tags steps true true stops rest
      let (value, rest) ← readValue tags steps true stops rest
      let (pairs, rest) ← readBlockPairs tags steps rest
      return ((key, value) :: pairs, rest)
    | .blockEnd :: rest => some ([], rest)
    | _ => none

/-- The items of a flow sequence up to and over its end. An item may be a single pair, which stands
for a mapping of that pair. A key mark with no key after it swallows the token that follows. -/
def readFlowItems (tags : TagTable) (steps : Nat) (first : Bool) (tokens : List Token) :
    Option (List (Node String) × List Token) :=
  match steps with
  | 0 => none
  | steps + 1 =>
    match tokens with
    | .flowSequenceEnd :: rest => some ([], rest)
    | _ => do
      let tokens ← if first then some tokens else match tokens with
        | .flowEntry :: rest => some rest
        | _ => none
      match tokens with
      | .flowSequenceEnd :: rest => return ([], rest)
      | .key :: rest =>
        let (key, rest) ←
          if nextIsIn rest [.value, .flowEntry, .flowSequenceEnd] then
            some (nothing none none, rest.drop 1)
          else readNode tags steps false false rest
        let (value, rest) ← readValue tags steps false [.flowEntry, .flowSequenceEnd] rest
        let (items, rest) ← readFlowItems tags steps false rest
        return (.mapping none none [(key, value)] :: items, rest)
      | _ =>
        let (item, rest) ← readNode tags steps false false tokens
        let (items, rest) ← readFlowItems tags steps false rest
        return (item :: items, rest)

/-- The pairs of a flow mapping up to and over its end. A node without a key mark is a key with
nothing as its value. -/
def readFlowPairs (tags : TagTable) (steps : Nat) (first : Bool) (tokens : List Token) :
    Option (List (Node String × Node String) × List Token) :=
  match steps with
  | 0 => none
  | steps + 1 =>
    match tokens with
    | .flowMappingEnd :: rest => some ([], rest)
    | _ => do
      let tokens ← if first then some tokens else match tokens with
        | .flowEntry :: rest => some rest
        | _ => none
      match tokens with
      | .flowMappingEnd :: rest => return ([], rest)
      | .key :: rest =>
        let (key, rest) ←
          readOptional tags steps false false [.value, .flowEntry, .flowMappingEnd] rest
        let (value, rest) ← readValue tags steps false [.flowEntry, .flowMappingEnd] rest
        let (pairs, rest) ← readFlowPairs tags steps false rest
        return ((key, value) :: pairs, rest)
      | _ =>
        let (key, rest) ← readNode tags steps false false tokens
        let (pairs, rest) ← readFlowPairs tags steps false rest
        return ((key, nothing none none) :: pairs, rest)

end

/-- The directives before a document: at most one version, 1.1 or 1.2, and each tag handle once. -/
def readDirectives (versioned : Bool) (tags : TagTable) :
    List Token → Option (TagTable × List Token)
  | .version major minor :: rest =>
    if versioned || major != 1 || (minor != 1 && minor != 2) then none
    else readDirectives true tags rest
  | .tagDirective handle expansion :: rest =>
    if (tags.lookup handle).isSome then none
    else readDirectives versioned (tags ++ [(handle, expansion)]) rest
  | tokens => some (tags, tokens)

/-- Whether a document with nothing in it ends here. -/
def atDocumentEnd : List Token → Bool
  | .version .. :: _ | .tagDirective .. :: _ | .documentStart :: _ | .documentEnd :: _
  | .streamEnd :: _ => true
  | _ => false

/-- The only document of a text, or none in it when there is no document at all. -/
def readDocument (tokens : List Token) : Option (Option (Node String)) := do
  let steps := 4 * tokens.length + 4
  match tokens with
  | .streamEnd :: _ => return none
  | _ =>
    let (node, rest) ← match tokens with
      | .version .. :: _ | .tagDirective .. :: _ | .documentStart :: _ => do
        match ← readDirectives false [] tokens with
        | (tags, .documentStart :: rest) =>
          if atDocumentEnd rest then some (nothing none none, rest)
          else readNode tags steps true false rest
        | _ => none
      | _ => readNode [] steps true false tokens
    match rest.dropWhile (· == .documentEnd) with
    | [.streamEnd] => return some node
    | _ => none

end Yaml
end ApiSchema
