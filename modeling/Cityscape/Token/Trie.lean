/-!
# Tries

A finite set of words with a value each, stored letter by letter: the branches of one node stand in a
list, each with its letter, the value of the word that ends there and the words that go on.
-/

namespace Cityscape

/-- Words with values; `branch` holds one letter, what begins with it, and the other branches. -/
inductive Trie (α : Type) where
  | empty
  | branch (letter : Char) (value : Option α) (below : Trie α) (others : Trie α)
  deriving DecidableEq, Repr

namespace Trie

variable {α : Type}

/-- The trie of one word; the empty word is not stored. -/
def single (value : α) : List Char → Trie α
  | [] => empty
  | [letter] => branch letter (some value) empty empty
  | letter :: rest => branch letter none (single value rest) empty

/-- Adds a word, or gives a word that is there already a new value. -/
def insert (value : α) : Trie α → List Char → Trie α
  | empty, word => single value word
  | trie, [] => trie
  | branch letter here below others, first :: rest =>
    if first = letter then
      match rest with
      | [] => branch letter (some value) below others
      | _ :: _ => branch letter here (below.insert value rest) others
    else
      branch letter here below (others.insert value (first :: rest))

/-- The words of a list, the last one winning where a word occurs twice. -/
def ofList (words : List (List Char × α)) : Trie α :=
  words.foldl (fun trie (word, value) ↦ trie.insert value word) empty

/-- Follows one letter: the value of the word ending there and the words that go on. -/
def follow? : Trie α → Char → Option (Option α × Trie α)
  | empty, _ => none
  | branch letter value below others, first =>
    if first = letter then some (value, below) else others.follow? first

/-- The value of a word. -/
def find? : Trie α → List Char → Option α
  | _, [] => none
  | trie, letter :: rest =>
    match trie.follow? letter, rest with
    | none, _ => none
    | some (value, _), [] => value
    | some (_, below), rest => below.find? rest

end Trie

end Cityscape
