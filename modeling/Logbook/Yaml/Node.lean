import Logbook.Yaml.Token.Scanner

/-!
# Nodes of YAML

A node is what the tokens of a document say before anything is resolved: a scalar
and how it is written, a collection of nodes, or an alias.  Anchors and tags are kept
with the nodes they stand before.

Missing nodes, such as the value of a key that is followed by another key, are
empty plain scalars.  All functions take what tokens are left and give what is left
then; `fuel` bounds the depth of their calls, of which each token takes at most two.
-/

namespace Logbook

namespace Yaml

/-- What may stand before a node. -/
structure Properties where
  /-- The name by which aliases refer to the node. -/
  anchor : Option String := none
  /-- The tag, with its handle replaced. -/
  tag : Option Octets := none

/-- A node of a document; `α` says how aliases refer to the node they repeat. -/
inductive Node (α : Type) where
  /-- Another node once more. -/
  | alias (target : α)
  /-- A scalar. -/
  | scalar (properties : Properties) (text : String) (style : ScalarStyle)
  /-- A sequence. -/
  | sequence (properties : Properties) (items : List (Node α))
  /-- A mapping. -/
  | mapping (properties : Properties) (entries : List (Node α × Node α))

namespace Node

/-- A missing node. -/
def empty {α : Type} : Node α := .scalar {} "" .plain

instance {α : Type} : Inhabited (Node α) := ⟨empty⟩

/-- The handles that stand for the beginnings of tags. -/
abbrev Handles := List (String × Octets)

/-- The handles that every document knows. -/
def commonHandles : Handles := [("!", octets "!"), ("!!", octets "tag:yaml.org,2002:")]

/-- A tag with its handle replaced; a handle has to be known. -/
def resolveTag? (handles : Handles) (handle : String) (suffix : Octets) : Option Octets :=
  if handle == "" then some suffix
  else (handles.lookup handle).map fun leader => leader ++ suffix

/-- The anchor and the tag at the start of a node, in either order. -/
def properties? (handles : Handles) : List Token → Option (Properties × List Token)
  | .anchor name :: .tag handle suffix :: rest =>
      (resolveTag? handles handle suffix).map fun tag => (⟨some name, some tag⟩, rest)
  | .tag handle suffix :: .anchor name :: rest =>
      (resolveTag? handles handle suffix).map fun tag => (⟨some name, some tag⟩, rest)
  | .anchor name :: rest => some (⟨some name, none⟩, rest)
  | .tag handle suffix :: rest =>
      (resolveTag? handles handle suffix).map fun tag => (⟨none, some tag⟩, rest)
  | rest => some ({}, rest)

/-- Whether the next token is one of the given ones. -/
def stopsAt (stops : List Token) (tokens : List Token) : Bool :=
  match tokens with
  | [] => true
  | token :: _ => stops.contains token

mutual

/-- A node.  In the block context it may be a block collection, and where a mapping
allows it a sequence that is not indented. -/
def node? (handles : Handles) :
    Nat → (inBlock indentless : Bool) → List Token → Option (Node String × List Token)
  | 0, _, _, _ => none
  | fuel + 1, inBlock, indentless, tokens =>
      match tokens with
      | .alias name :: rest => some (.alias name, rest)
      | _ =>
          match properties? handles tokens with
          | none => none
          | some (properties, tokens) =>
              match tokens with
              | .scalar text style :: rest => some (.scalar properties text style, rest)
              | .flowSequenceStart :: rest =>
                  (flowItems? handles fuel true rest).map fun (items, rest) =>
                    (.sequence properties items, rest)
              | .flowMappingStart :: rest =>
                  (flowEntries? handles fuel true rest).map fun (entries, rest) =>
                    (.mapping properties entries, rest)
              | _ =>
                  if indentless && stopsAt [.entry] tokens && !tokens.isEmpty then
                    (indentlessItems? handles fuel tokens).map fun (items, rest) =>
                      (.sequence properties items, rest)
                  else match inBlock, tokens with
                    | true, .sequenceStart :: rest =>
                        (blockItems? handles fuel rest).map fun (items, rest) =>
                          (.sequence properties items, rest)
                    | true, .mappingStart :: rest =>
                        (blockEntries? handles fuel rest).map fun (entries, rest) =>
                          (.mapping properties entries, rest)
                    | _, _ =>
                        if properties.anchor.isSome || properties.tag.isSome then
                          some (.scalar properties "" .plain, tokens)
                        else none

/-- A node, or an empty one if a token follows that shows that it is missing. -/
def nodeUnless? (handles : Handles) :
    Nat → (inBlock indentless : Bool) → (stops : List Token) → List Token →
      Option (Node String × List Token)
  | 0, _, _, _, _ => none
  | fuel + 1, inBlock, indentless, stops, tokens =>
      if stopsAt stops tokens then some (empty, tokens)
      else node? handles fuel inBlock indentless tokens

/-- The items of a block sequence up to its end. -/
def blockItems? (handles : Handles) : Nat → List Token → Option (List (Node String) × List Token)
  | 0, _ => none
  | fuel + 1, tokens =>
      match tokens with
      | .entry :: rest => do
          let (item, rest) ← nodeUnless? handles fuel true false [.entry, .blockEnd] rest
          let (items, rest) ← blockItems? handles fuel rest
          some (item :: items, rest)
      | .blockEnd :: rest => some ([], rest)
      | _ => none

/-- The items of a sequence that is not indented; another token ends it. -/
def indentlessItems? (handles : Handles) :
    Nat → List Token → Option (List (Node String) × List Token)
  | 0, _ => none
  | fuel + 1, tokens =>
      match tokens with
      | .entry :: rest => do
          let (item, rest) ←
            nodeUnless? handles fuel true false [.entry, .key, .value, .blockEnd] rest
          let (items, rest) ← indentlessItems? handles fuel rest
          some (item :: items, rest)
      | _ => some ([], tokens)

/-- The entries of a block mapping up to its end. -/
def blockEntries? (handles : Handles) :
    Nat → List Token → Option (List (Node String × Node String) × List Token)
  | 0, _ => none
  | fuel + 1, tokens =>
      let stops : List Token := [.key, .value, .blockEnd]
      match tokens with
      | .key :: rest => do
          let (key, rest) ← nodeUnless? handles fuel true true stops rest
          let (value, rest) ← match rest with
            | .value :: rest => nodeUnless? handles fuel true true stops rest
            | _ => some (empty, rest)
          let (entries, rest) ← blockEntries? handles fuel rest
          some ((key, value) :: entries, rest)
      | .blockEnd :: rest => some ([], rest)
      | _ => none

/-- The items of a flow sequence up to its bracket.  A key in it makes a mapping of
one entry. -/
def flowItems? (handles : Handles) :
    Nat → (isFirst : Bool) → List Token → Option (List (Node String) × List Token)
  | 0, _, _ => none
  | fuel + 1, isFirst, tokens => do
      let stops : List Token := [.flowEntry, .flowSequenceEnd]
      let tokens ←
        match isFirst, tokens with
        | false, .flowEntry :: rest => some rest
        | false, .flowSequenceEnd :: _ => some tokens
        | false, _ => none
        | true, _ => some tokens
      match tokens with
      | .flowSequenceEnd :: rest => some ([], rest)
      | .key :: rest =>
          let (key, rest) ←
            if stopsAt (.value :: stops) rest then some (empty, rest.drop 1)
            else node? handles fuel false false rest
          let (value, rest) ← match rest with
            | .value :: rest => nodeUnless? handles fuel false false stops rest
            | _ => some (empty, rest)
          let (items, rest) ← flowItems? handles fuel false rest
          some (.mapping {} [(key, value)] :: items, rest)
      | _ =>
          let (item, rest) ← node? handles fuel false false tokens
          let (items, rest) ← flowItems? handles fuel false rest
          some (item :: items, rest)

/-- The entries of a flow mapping up to its brace.  A node alone is a key without a
value. -/
def flowEntries? (handles : Handles) :
    Nat → (isFirst : Bool) → List Token → Option (List (Node String × Node String) × List Token)
  | 0, _, _ => none
  | fuel + 1, isFirst, tokens => do
      let stops : List Token := [.flowEntry, .flowMappingEnd]
      let tokens ←
        match isFirst, tokens with
        | false, .flowEntry :: rest => some rest
        | false, .flowMappingEnd :: _ => some tokens
        | false, _ => none
        | true, _ => some tokens
      match tokens with
      | .flowMappingEnd :: rest => some ([], rest)
      | .key :: rest =>
          let (key, rest) ← nodeUnless? handles fuel false false (.value :: stops) rest
          let (value, rest) ← match rest with
            | .value :: rest => nodeUnless? handles fuel false false stops rest
            | _ => some (empty, rest)
          let (entries, rest) ← flowEntries? handles fuel false rest
          some ((key, value) :: entries, rest)
      | _ =>
          let (key, rest) ← node? handles fuel false false tokens
          let (entries, rest) ← flowEntries? handles fuel false rest
          some ((key, empty) :: entries, rest)

end

/-- Whether a token is a directive. -/
def isDirective : Token → Bool
  | .version .. => true
  | .tagHandle .. => true
  | _ => false

/-- Reads the directives in front of a document: one version at most, of the first
major version, and each handle of tags once. -/
def directives? : (versionSeen : Bool) → Handles → List Token → Option (Handles × List Token)
  | versionSeen, handles, .version major minor :: rest =>
      if versionSeen || major != 1 || (minor != 1 && minor != 2) then none
      else directives? true handles rest
  | versionSeen, handles, .tagHandle handle leader :: rest =>
      if (handles.lookup handle).isSome then none
      else directives? versionSeen (handles ++ [(handle, leader)]) rest
  | _, handles, rest => some (handles, rest)

/-- The tokens after the markers of document ends. -/
def dropEnds : List Token → List Token
  | .documentEnd :: rest => dropEnds rest
  | rest => rest

/-- The single document of a sequence of tokens, an empty one being missing; `none`
if the tokens are not those of one document. -/
def ofTokens? (tokens : List Token) : Option (Node String) := do
  let fuel := 2 * tokens.length + 4
  match tokens with
  | [] => some empty
  | first :: _ =>
      let (node, rest) ←
        if isDirective first || first == .documentStart then do
          let (handles, rest) ← directives? false [] tokens
          let handles := handles ++ commonHandles
          match rest with
          | .documentStart :: rest =>
              if rest.isEmpty || stopsAt [.documentStart, .documentEnd] rest
                || (rest.head?.map isDirective).getD false then
                some (empty, rest)
              else node? handles fuel true false rest
          | _ => none
        else node? commonHandles fuel true false tokens
      if (dropEnds rest).isEmpty then some node else none

end Node

end Yaml

end Logbook
