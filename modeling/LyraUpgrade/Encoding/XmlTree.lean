import LyraUpgrade.Encoding.Xml

/-!
# XML as a tree

What a pull parser reports without looking at names and namespaces: start tags, end tags, and
everything else.  A list of tokens in which every element is closed by its own name is a
forest, and every forest is such a list.

## Main definitions

* `Token` — what is reported.
* `XmlNode` — an element with its content, or a token that is neither of its tags.
* `nest` — what a token does to the names of the open elements.

## Main results

* `nested_tokens` — a forest leaves the open elements as they are.
* `exists_forest` — tokens that leave nothing open are a forest.
-/

namespace Encoding.Xml

/-- A reference in a text. -/
inductive Reference
  | malformed
  | character (c : Char)
  | entity (name : String)
  deriving DecidableEq, Repr

structure Tag where
  name : String
  attributes : List Attribute
  deriving DecidableEq, Repr

/-- What is neither a start tag nor an end tag. -/
inductive Leaf
  /-- A tag that closes its own element. -/
  | empty (tag : Tag)
  | text (content : String)
  | reference (reference : Reference)
  | declaration
  | comment
  | docType
  | instruction
  | cdata
  /-- The tokenizer stops here. -/
  | malformed
  deriving DecidableEq, Repr

inductive Token
  | start (tag : Tag)
  | close (name : String)
  | leaf (leaf : Leaf)
  deriving DecidableEq, Repr

inductive XmlNode
  | element (tag : Tag) (content : List XmlNode)
  | leaf (leaf : Leaf)

/-! ## The parts of a tree -/

mutual

/-- A tree as it is written. -/
def XmlNode.tokens : XmlNode → List Token
  | .element tag content => .start tag :: (forestTokens content ++ [.close tag.name])
  | .leaf leaf => [.leaf leaf]

def forestTokens : List XmlNode → List Token
  | [] => []
  | node :: nodes => node.tokens ++ forestTokens nodes

end

mutual

/-- The tags of a tree, those of empty elements among them. -/
def XmlNode.tags : XmlNode → List Tag
  | .element tag content => tag :: forestTags content
  | .leaf (.empty tag) => [tag]
  | .leaf _ => []

def forestTags : List XmlNode → List Tag
  | [] => []
  | node :: nodes => node.tags ++ forestTags nodes

end

mutual

/-- The leaves of a tree. -/
def XmlNode.leaves : XmlNode → List Leaf
  | .element _ content => forestLeaves content
  | .leaf leaf => [leaf]

def forestLeaves : List XmlNode → List Leaf
  | [] => []
  | node :: nodes => node.leaves ++ forestLeaves nodes

end

mutual

/-- How many elements of a tree are open at most. -/
def XmlNode.openDepth : XmlNode → ℕ
  | .element _ content => forestOpenDepth content + 1
  | .leaf _ => 0

def forestOpenDepth : List XmlNode → ℕ
  | [] => 0
  | node :: nodes => max node.openDepth (forestOpenDepth nodes)

end

mutual

/-- How deep the elements of a tree are nested, the empty ones among them. -/
def XmlNode.depth : XmlNode → ℕ
  | .element _ content => forestDepth content + 1
  | .leaf (.empty _) => 1
  | .leaf _ => 0

def forestDepth : List XmlNode → ℕ
  | [] => 0
  | node :: nodes => max node.depth (forestDepth nodes)

end

section

variable {tag : Tag} {leaf : Leaf} {node : XmlNode} {content nodes others : List XmlNode}

@[simp] theorem tokens_element :
    (XmlNode.element tag content).tokens = .start tag :: (forestTokens content ++ [.close tag.name]) :=
  rfl

@[simp] theorem tokens_leaf : (XmlNode.leaf leaf).tokens = [.leaf leaf] := rfl

@[simp] theorem forestTokens_nil : forestTokens [] = [] := rfl

@[simp] theorem forestTokens_cons : forestTokens (node :: nodes) = node.tokens ++ forestTokens nodes :=
  rfl

theorem forestTokens_append :
    forestTokens (nodes ++ others) = forestTokens nodes ++ forestTokens others := by
  induction nodes with
  | nil => rfl
  | cons node nodes ih =>
      rw [List.cons_append, forestTokens_cons, forestTokens_cons, ih, List.append_assoc]

theorem forestTags_append : forestTags (nodes ++ others) = forestTags nodes ++ forestTags others := by
  induction nodes with
  | nil => rfl
  | cons node nodes ih => rw [List.cons_append, forestTags, forestTags, ih, List.append_assoc]

theorem forestLeaves_append :
    forestLeaves (nodes ++ others) = forestLeaves nodes ++ forestLeaves others := by
  induction nodes with
  | nil => rfl
  | cons node nodes ih => rw [List.cons_append, forestLeaves, forestLeaves, ih, List.append_assoc]

theorem forestOpenDepth_append :
    forestOpenDepth (nodes ++ others) = max (forestOpenDepth nodes) (forestOpenDepth others) := by
  induction nodes with
  | nil => rw [List.nil_append, forestOpenDepth, Nat.zero_max]
  | cons node nodes ih => rw [List.cons_append, forestOpenDepth, forestOpenDepth, ih, Nat.max_assoc]

theorem forestTokens_leaves (leaves : List Leaf) :
    forestTokens (leaves.map XmlNode.leaf) = leaves.map Token.leaf := by
  induction leaves with
  | nil => rfl
  | cons leaf leaves ih =>
      rw [List.map_cons, forestTokens_cons, ih]
      rfl

theorem forestDepth_append :
    forestDepth (nodes ++ others) = max (forestDepth nodes) (forestDepth others) := by
  induction nodes with
  | nil => rw [List.nil_append, forestDepth, Nat.zero_max]
  | cons node nodes ih => rw [List.cons_append, forestDepth, forestDepth, ih, Nat.max_assoc]

theorem forestLeaves_leaves (leaves : List Leaf) : forestLeaves (leaves.map XmlNode.leaf) = leaves := by
  induction leaves with
  | nil => rfl
  | cons leaf leaves ih =>
      rw [List.map_cons, forestLeaves, ih]
      rfl

theorem forestOpenDepth_leaves (leaves : List Leaf) : forestOpenDepth (leaves.map XmlNode.leaf) = 0 := by
  induction leaves with
  | nil => rfl
  | cons leaf leaves ih =>
      rw [List.map_cons, forestOpenDepth, ih]
      rfl

end

/-! ## Nesting -/

/-- What a token does to the open elements, the innermost first, where each is closed by its own
name. -/
def Token.nest (names : List String) : Token → Option (List String)
  | .start tag => some (tag.name :: names)
  | .close name => if names.head? = some name then some names.tail else none
  | .leaf _ => some names

def nestAll (names : List String) (tokens : List Token) : Option (List String) :=
  tokens.foldlM Token.nest names

theorem nestAll_append (names : List String) (tokens rest : List Token) :
    nestAll names (tokens ++ rest) = (nestAll names tokens).bind fun names => nestAll names rest := by
  rw [nestAll, List.foldlM_append]
  rfl

theorem nestAll_cons (names : List String) (token : Token) (rest : List Token) :
    nestAll names (token :: rest) = (token.nest names).bind fun names => nestAll names rest :=
  rfl

mutual

/-- A tree leaves the open elements as they are. -/
theorem nested_tokens (names : List String) (node : XmlNode) :
    nestAll names node.tokens = some names := by
  cases node with
  | element tag content =>
      rw [tokens_element, nestAll_cons, Token.nest, Option.bind_some, nestAll_append,
        nested_forestTokens, Option.bind_some, nestAll_cons, Token.nest,
        if_pos List.head?_cons]
      rfl
  | leaf leaf => rfl

theorem nested_forestTokens (names : List String) (nodes : List XmlNode) :
    nestAll names (forestTokens nodes) = some names := by
  cases nodes with
  | nil => rfl
  | cons node nodes =>
      rw [forestTokens_cons, nestAll_append, nested_tokens, Option.bind_some, nested_forestTokens]

end

/-- What stands in front of the end tag of the innermost element is a forest. -/
theorem exists_content {name : String} {names : List String} {tokens : List Token}
    (h : nestAll (name :: names) tokens = some []) :
    ∃ nodes rest, tokens = forestTokens nodes ++ .close name :: rest ∧ nestAll names rest = some [] := by
  induction hn : tokens.length using Nat.strongRecOn generalizing name names tokens with
  | _ n ih =>
      subst hn
      cases tokens with
      | nil => cases h
      | cons token tokens =>
          rw [nestAll_cons] at h
          cases token with
          | leaf leaf =>
              obtain ⟨nodes, rest, rfl, hrest⟩ := ih tokens.length (by simp) h rfl
              exact ⟨.leaf leaf :: nodes, rest, rfl, hrest⟩
          | close other =>
              obtain ⟨after, hafter, hrest⟩ := Option.bind_eq_some_iff.mp h
              rw [Token.nest] at hafter
              split_ifs at hafter with hname
              obtain rfl : name = other := by simpa using hname
              cases hafter
              exact ⟨[], tokens, rfl, hrest⟩
          | start tag =>
              -- first the content of the new element, then what follows it
              obtain ⟨inner, behind, rfl, hbehind⟩ := ih tokens.length (by simp) h rfl
              obtain ⟨nodes, rest, rfl, hrest⟩ := ih behind.length
                (by simp only [List.length_append, List.length_cons]; omega) hbehind rfl
              refine ⟨.element tag inner :: nodes, rest, ?_, hrest⟩
              simp

/-- **Tokens that leave nothing open are a forest.** -/
theorem exists_forest {tokens : List Token} (h : nestAll [] tokens = some []) :
    ∃ nodes, tokens = forestTokens nodes := by
  induction hn : tokens.length using Nat.strongRecOn generalizing tokens with
  | _ n ih =>
      subst hn
      cases tokens with
      | nil => exact ⟨[], rfl⟩
      | cons token tokens =>
          rw [nestAll_cons] at h
          cases token with
          | leaf leaf =>
              obtain ⟨nodes, rfl⟩ := ih tokens.length (by simp) h rfl
              exact ⟨.leaf leaf :: nodes, rfl⟩
          | close other => cases h
          | start tag =>
              obtain ⟨inner, behind, rfl, hbehind⟩ := exists_content h
              obtain ⟨nodes, rfl⟩ := ih behind.length
                (by simp only [List.length_append, List.length_cons]; omega) hbehind rfl
              exact ⟨.element tag inner :: nodes, by simp⟩

/-! ## Depth -/

/-- How deep the elements are that begin while `opened` others are open. -/
def tokenDepth (opened : ℕ) : List Token → ℕ
  | [] => 0
  | .start _ :: tokens => max (opened + 1) (tokenDepth (opened + 1) tokens)
  | .close _ :: tokens => tokenDepth (opened - 1) tokens
  | .leaf (.empty _) :: tokens => max (opened + 1) (tokenDepth opened tokens)
  | .leaf _ :: tokens => tokenDepth opened tokens

mutual

/-- The tokens of a tree show no element deeper than the tree. -/
theorem tokenDepth_node (opened : ℕ) (node : XmlNode) (rest : List Token) :
    tokenDepth opened (node.tokens ++ rest) ≤ max (opened + node.depth) (tokenDepth opened rest) := by
  cases node with
  | element tag content =>
      have hcontent := tokenDepth_forest (opened + 1) content (.close tag.name :: rest)
      rw [tokens_element, List.cons_append, List.append_assoc, List.singleton_append, tokenDepth,
        XmlNode.depth]
      rw [tokenDepth, Nat.add_sub_cancel] at hcontent
      omega
  | leaf leaf =>
      rw [tokens_leaf, List.singleton_append]
      cases leaf with
      | empty tag => exact Nat.le_refl _
      | _ => exact Nat.le_max_right _ _

theorem tokenDepth_forest (opened : ℕ) (nodes : List XmlNode) (rest : List Token) :
    tokenDepth opened (forestTokens nodes ++ rest) ≤
      max (opened + forestDepth nodes) (tokenDepth opened rest) := by
  cases nodes with
  | nil => exact Nat.le_max_right _ _
  | cons node nodes =>
      have hnode := tokenDepth_node opened node (forestTokens nodes ++ rest)
      have hnodes := tokenDepth_forest opened nodes rest
      rw [forestTokens_cons, List.append_assoc, forestDepth]
      omega

end

end Encoding.Xml
