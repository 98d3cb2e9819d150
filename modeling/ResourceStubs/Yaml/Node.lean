import ResourceStubs.Yaml.Token

/-!
# Nodes of YAML

A document is one node: a scalar, a sequence of nodes, or a mapping of nodes to
nodes, which may have keys of any kind and the same key several times.  A reference
is the node that was given that name last.  A node that refers to itself from the
inside has no finite form; there it is `circular`.

A stream is expected to hold one document at most.  An empty stream has none, and
that is different from a document that holds an empty scalar.

## How nodes are read

The tokens are read from left to right, and every reader says with its result that
it has left fewer tokens over than it was given, or at least not more.  That is
what ends the recursion.
-/

namespace ResourceStubs
namespace Yaml

/-- A node of a document. -/
inductive Node where
  | scalar (text : String) (style : Style) (tag : Option String)
  | sequence (items : List Node)
  | mapping (pairs : List (Node × Node))
  | circular
  deriving Repr, Inhabited

/-- What stands where nothing is written. -/
def Node.empty : Node := .scalar "" .plain none

/-- What has been declared so far: tag handles, and names of nodes, the latest
first.  A name without a node is that of a node that has not ended. -/
structure Declared where
  handles : List (String × String) := []
  names : List (String × Option Node) := []

namespace Declared

/-- Gives a name to a node that begins. -/
def openName (d : Declared) (name : String) : Declared :=
  { d with names := (name, none) :: d.names }

/-- Sets the node of the name that was opened when there were `count` names. -/
def closeName (d : Declared) (count : Nat) (name : String) (n : Node) : Declared :=
  { d with names := d.names.set (d.names.length - 1 - count) (name, some n) }

/-- The node that a name refers to. -/
def node? (d : Declared) (name : String) : Option Node :=
  (d.names.lookup name).map fun n => n.getD .circular

/-- The tag that a handle and a suffix stand for. -/
def tag? (d : Declared) (handle suffix : String) : Option String :=
  if handle = "" then some suffix
  else
    let known := d.handles ++ [("!", "!"), ("!!", "tag:yaml.org,2002:")]
    (known.lookup handle).map (· ++ suffix)

end Declared

/-- What a node may have in front of it. -/
structure Properties where
  name : Option String := none
  tag : Option (String × String) := none

/-- Reads what stands in front of a node: a name and a tag, in either order. -/
def readProperties (p : Properties) : (ts : List Token) →
    Properties × { rest : List Token // rest.length ≤ ts.length }
  | .anchor name :: rest =>
      if p.name.isNone then
        let (p, ⟨after, h⟩) := readProperties { p with name := some name } rest
        (p, ⟨after, Nat.le_succ_of_le h⟩)
      else (p, ⟨.anchor name :: rest, Nat.le_refl _⟩)
  | .tag handle suffix :: rest =>
      if p.tag.isNone then
        let (p, ⟨after, h⟩) := readProperties { p with tag := some (handle, suffix) } rest
        (p, ⟨after, Nat.le_succ_of_le h⟩)
      else (p, ⟨.tag handle suffix :: rest, Nat.le_refl _⟩)
  | ts => (p, ⟨ts, Nat.le_refl _⟩)

/-- A result, what has been declared by then, and fewer tokens than `ts`. -/
abbrev Shorter (α : Type) (ts : List Token) : Type :=
  α × Declared × { rest : List Token // rest.length < ts.length }

/-- A result, what has been declared by then, and not more tokens than `ts`. -/
abbrev NotLonger (α : Type) (ts : List Token) : Type :=
  α × Declared × { rest : List Token // rest.length ≤ ts.length }

/-- Is one of these tokens at hand, or none at all? -/
def stopsAt (stops : List Token) (ts : List Token) : Bool :=
  match ts with
  | [] => true
  | t :: _ => stops.contains t

mutual

/-- Reads a node.  `block` says whether a block may begin here, and `dashes` whether
the dashes of a sequence may stand in the column of the key in front of it. -/
def readNode (block dashes : Bool) (d : Declared) (ts : List Token) :
    Option (Shorter Node ts) :=
  match ts with
  | .reference name :: rest => do
      let n ← d.node? name
      return (n, d, ⟨rest, Nat.lt_succ_self _⟩)
  | ts => do
      let (p, ⟨inner, hinner⟩) := readProperties {} ts
      let count := d.names.length
      let d := match p.name with
        | some name => d.openName name
        | none => d
      let tag ← match p.tag with
        | some (handle, suffix) => (d.tag? handle suffix).map some
        | none => some none
      let (n, d, ⟨rest, hrest⟩) ← readContent block dashes d tag ts inner hinner
      let d := match p.name with
        | some name => d.closeName count name n
        | none => d
      return (n, d, ⟨rest, hrest⟩)
termination_by 8 * ts.length + 2
decreasing_by all_goals omega

/-- Reads a node less what stands in front of it.  If something stands there, the
node may be empty. -/
def readContent (block dashes : Bool) (d : Declared) (tag : Option String)
    (ts inner : List Token) (hinner : inner.length ≤ ts.length) :
    Option (Shorter Node ts) :=
  match inner, hinner with
  | .scalar text style :: rest, h => some (.scalar text style tag, d, ⟨rest, h⟩)
  | .flowSequenceStart :: rest, h => do
      let (items, d, ⟨after, ha⟩) ← readFlowItems true [] d rest
      return (.sequence items, d, ⟨after, Nat.lt_of_lt_of_le (Nat.lt_succ_of_lt ha) h⟩)
  | .flowMappingStart :: rest, h => do
      let (pairs, d, ⟨after, ha⟩) ← readFlowPairs true [] d rest
      return (.mapping pairs, d, ⟨after, Nat.lt_of_lt_of_le (Nat.lt_succ_of_lt ha) h⟩)
  | .blockSequenceStart :: rest, h =>
      if block then do
        let (items, d, ⟨after, ha⟩) ← readBlockItems [] d rest
        return (.sequence items, d, ⟨after, Nat.lt_of_lt_of_le (Nat.lt_succ_of_lt ha) h⟩)
      else none
  | .blockMappingStart :: rest, h =>
      if block then do
        let (pairs, d, ⟨after, ha⟩) ← readBlockPairs [] d rest
        return (.mapping pairs, d, ⟨after, Nat.lt_of_lt_of_le (Nat.lt_succ_of_lt ha) h⟩)
      else none
  | inner, h =>
      if dashes && inner.head? == some .blockEntry then
        match inner, h with
        | _ :: rest, h => do
            let (items, d, ⟨after, ha⟩) ← readDashItems [] d rest
            return (.sequence items, d, ⟨after, Nat.lt_of_le_of_lt ha h⟩)
        | [], _ => none
      else if hlt : inner.length < ts.length then
        some (.scalar "" .plain tag, d, ⟨inner, hlt⟩)
      else none
termination_by 8 * inner.length + 1
decreasing_by all_goals grind

/-- Reads a node, or nothing where one of `stops` is at hand. -/
def readOptional (stops : List Token) (block dashes : Bool) (d : Declared) (ts : List Token) :
    Option (NotLonger Node ts) :=
  if stopsAt stops ts then some (.empty, d, ⟨ts, Nat.le_refl _⟩)
  else do
    let (n, d, ⟨rest, h⟩) ← readNode block dashes d ts
    return (n, d, ⟨rest, Nat.le_of_lt h⟩)
termination_by 8 * ts.length + 3
decreasing_by all_goals omega

/-- Reads the items of a block sequence and its end. -/
def readBlockItems (items : List Node) (d : Declared) (ts : List Token) :
    Option (Shorter (List Node) ts) :=
  match ts with
  | .blockEntry :: rest => do
      let (n, d, ⟨after, h⟩) ← readOptional [.blockEntry, .blockEnd] true false d rest
      let (items, d, ⟨last, hl⟩) ← readBlockItems (items ++ [n]) d after
      return (items, d, ⟨last, Nat.lt_of_lt_of_le hl (Nat.le_succ_of_le h)⟩)
  | .blockEnd :: rest => some (items, d, ⟨rest, Nat.lt_succ_self _⟩)
  | _ => none
termination_by 8 * ts.length + 0
decreasing_by all_goals grind

/-- Reads the items of a sequence whose dashes stand in the column of a key.  The
first dash has been read. -/
def readDashItems (items : List Node) (d : Declared) (ts : List Token) :
    Option (NotLonger (List Node) ts) := do
  let (n, d, ⟨after, h⟩) ← readOptional [.blockEntry, .key, .value, .blockEnd] true false d ts
  match after, h with
  | .blockEntry :: rest, h =>
      let (items, d, ⟨last, hl⟩) ← readDashItems (items ++ [n]) d rest
      return (items, d, ⟨last, Nat.le_of_lt (Nat.lt_of_le_of_lt hl h)⟩)
  | after, h => return (items ++ [n], d, ⟨after, h⟩)
termination_by 8 * ts.length + 4
decreasing_by all_goals grind

/-- Reads the value behind a key, if there is a colon. -/
def readValue (stops : List Token) (block : Bool) (d : Declared) (ts : List Token) :
    Option (NotLonger Node ts) :=
  match ts with
  | .value :: rest => do
      let (n, d, ⟨after, h⟩) ← readOptional stops block block d rest
      return (n, d, ⟨after, Nat.le_succ_of_le h⟩)
  | ts => some (.empty, d, ⟨ts, Nat.le_refl _⟩)
termination_by 8 * ts.length + 5
decreasing_by all_goals grind

/-- Reads the pairs of a block mapping and its end. -/
def readBlockPairs (pairs : List (Node × Node)) (d : Declared) (ts : List Token) :
    Option (Shorter (List (Node × Node)) ts) :=
  match ts with
  | .key :: rest => do
      let stops := [.key, .value, .blockEnd]
      let (k, d, ⟨afterKey, hk⟩) ← readOptional stops true true d rest
      let (v, d, ⟨after, hv⟩) ← readValue stops true d afterKey
      let (pairs, d, ⟨last, hl⟩) ← readBlockPairs (pairs ++ [(k, v)]) d after
      return (pairs, d,
        ⟨last, Nat.lt_of_lt_of_le hl (Nat.le_succ_of_le (Nat.le_trans hv hk))⟩)
  | .blockEnd :: rest => some (pairs, d, ⟨rest, Nat.lt_succ_self _⟩)
  | _ => none
termination_by 8 * ts.length + 0
decreasing_by all_goals grind

/-- Reads one item of a flow sequence.  A pair by itself is a mapping. -/
def readFlowItem (d : Declared) (ts : List Token) : Option (Shorter Node ts) :=
  match ts with
  | .key :: rest => do
      let (k, d, ⟨afterKey, hk⟩) ←
        readOptional [.value, .flowEntry, .flowSequenceEnd] false false d rest
      let (v, d, ⟨after, hv⟩) ← readValue [.flowEntry, .flowSequenceEnd] false d afterKey
      return (.mapping [(k, v)], d, ⟨after, Nat.lt_succ_of_le (Nat.le_trans hv hk)⟩)
  | ts => readNode false false d ts
termination_by 8 * ts.length + 6
decreasing_by all_goals grind

/-- Reads the items of a flow sequence and its end. -/
def readFlowItems (first : Bool) (items : List Node) (d : Declared) (ts : List Token) :
    Option (Shorter (List Node) ts) :=
  match ts with
  | .flowSequenceEnd :: rest => some (items, d, ⟨rest, Nat.lt_succ_self _⟩)
  | .flowEntry :: .flowSequenceEnd :: rest =>
      if first then none else some (items, d, ⟨rest, by simp only [List.length_cons]; omega⟩)
  | ts =>
      if first then do
        let (n, d, ⟨after, h⟩) ← readFlowItem d ts
        let (items, d, ⟨last, hl⟩) ← readFlowItems false [n] d after
        return (items, d, ⟨last, Nat.lt_trans hl h⟩)
      else match ts with
        | .flowEntry :: rest => do
            let (n, d, ⟨after, h⟩) ← readFlowItem d rest
            let (items, d, ⟨last, hl⟩) ← readFlowItems false (items ++ [n]) d after
            return (items, d, ⟨last, Nat.lt_succ_of_lt (Nat.lt_trans hl h)⟩)
        | _ => none
termination_by 8 * ts.length + 7
decreasing_by all_goals grind

/-- Reads one pair of a flow mapping.  A node by itself is a key without a value. -/
def readFlowPair (d : Declared) (ts : List Token) : Option (Shorter (Node × Node) ts) :=
  match ts with
  | .key :: rest => do
      let (k, d, ⟨afterKey, hk⟩) ←
        readOptional [.value, .flowEntry, .flowMappingEnd] false false d rest
      let (v, d, ⟨after, hv⟩) ← readValue [.flowEntry, .flowMappingEnd] false d afterKey
      return ((k, v), d, ⟨after, Nat.lt_succ_of_le (Nat.le_trans hv hk)⟩)
  | ts => do
      let (k, d, ⟨after, h⟩) ← readNode false false d ts
      return ((k, .empty), d, ⟨after, h⟩)
termination_by 8 * ts.length + 6
decreasing_by all_goals grind

/-- Reads the pairs of a flow mapping and its end. -/
def readFlowPairs (first : Bool) (pairs : List (Node × Node)) (d : Declared)
    (ts : List Token) : Option (Shorter (List (Node × Node)) ts) :=
  match ts with
  | .flowMappingEnd :: rest => some (pairs, d, ⟨rest, Nat.lt_succ_self _⟩)
  | .flowEntry :: .flowMappingEnd :: rest =>
      if first then none else some (pairs, d, ⟨rest, by simp only [List.length_cons]; omega⟩)
  | ts =>
      if first then do
        let (p, d, ⟨after, h⟩) ← readFlowPair d ts
        let (pairs, d, ⟨last, hl⟩) ← readFlowPairs false [p] d after
        return (pairs, d, ⟨last, Nat.lt_trans hl h⟩)
      else match ts with
        | .flowEntry :: rest => do
            let (p, d, ⟨after, h⟩) ← readFlowPair d rest
            let (pairs, d, ⟨last, hl⟩) ← readFlowPairs false (pairs ++ [p]) d after
            return (pairs, d, ⟨last, Nat.lt_succ_of_lt (Nat.lt_trans hl h)⟩)
        | _ => none
termination_by 8 * ts.length + 7
decreasing_by all_goals grind

end

/-- Reads directives.  The version may be declared once, and so may each handle. -/
def readDirectives (versioned : Bool) (d : Declared) :
    List Token → Option (Declared × List Token)
  | .versionDirective major minor :: rest =>
      if versioned || major != 1 || (minor != 1 && minor != 2) then none
      else readDirectives true d rest
  | .tagDirective handle expansion :: rest =>
      if (d.handles.lookup handle).isSome then none
      else readDirectives versioned { d with handles := (handle, expansion) :: d.handles } rest
  | ts => some (d, ts)

/-- Is a token one that a document begins or ends with? -/
def isBoundary : Token → Bool
  | .versionDirective .. | .tagDirective .. | .documentStart | .documentEnd => true
  | _ => false

/-- Reads the node of a document that begins without a sign. -/
def readBare (d : Declared) (ts : List Token) : Option (Node × List Token) := do
  let (n, _, ⟨rest, _⟩) ← readNode true false d ts
  return (n, rest)

/-- Reads the node of a document that begins with directives or with its sign. -/
def readMarked (ts : List Token) : Option (Node × List Token) := do
  let (d, ts) ← readDirectives false {} ts
  match ts with
  | .documentStart :: rest =>
      if rest.head?.all isBoundary then return (Node.empty, rest) else readBare d rest
  | _ => none

/-- The node of the only document of a stream, or none if the stream is empty. -/
def document? (ts : List Token) : Option (Option Node) := do
  match ts with
  | [] => return none
  | first :: _ =>
      let (n, rest) ← if isBoundary first then readMarked ts else readBare {} ts
      if rest.all (· == .documentEnd) then return some n else none

/-- The node that a text holds, or none if it is empty. -/
def read? (text : String) : Option (Option Node) := do
  document? (← tokens? text)

end Yaml
end ResourceStubs
