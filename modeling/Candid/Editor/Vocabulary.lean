import Candid.Text.Basic

/-!
# Vocabulary

The words that an editor explains: the built-in types and the keywords, each with a short
description, in the order in which they are offered.
-/

set_option autoImplicit false

namespace Candid.Editor

structure Entry where
  word : Text
  description : Text
  deriving DecidableEq, Repr

def builtinTypes : List Entry := [
  ⟨"text".toList, "UTF-8 text".toList⟩,
  ⟨"bool".toList, "Boolean value (true/false)".toList⟩,
  ⟨"float32".toList, "32-bit IEEE 754 float".toList⟩,
  ⟨"float64".toList, "64-bit IEEE 754 float".toList⟩,
  ⟨"principal".toList, "Principal identifier (textual form, e.g. aaaaa-aa)".toList⟩,
  ⟨"nat".toList, "Unbounded natural number (JSON: number or decimal string)".toList⟩,
  ⟨"int".toList, "Unbounded integer (JSON: number or decimal string)".toList⟩,
  ⟨"nat8".toList, "Unsigned 8-bit integer (0–255)".toList⟩,
  ⟨"nat16".toList, "Unsigned 16-bit integer".toList⟩,
  ⟨"nat32".toList, "Unsigned 32-bit integer".toList⟩,
  ⟨"nat64".toList, "Unsigned 64-bit integer".toList⟩,
  ⟨"int8".toList, "Signed 8-bit integer (-128–127)".toList⟩,
  ⟨"int16".toList, "Signed 16-bit integer".toList⟩,
  ⟨"int32".toList, "Signed 32-bit integer".toList⟩,
  ⟨"int64".toList, "Signed 64-bit integer".toList⟩,
  ⟨"blob".toList, "Byte sequence (shorthand for vec nat8)".toList⟩]

def keywords : List Entry := [
  ⟨"type".toList, "Declare a type alias (type Name = T;)".toList⟩,
  ⟨"opt".toList, "Optional value (JSON: null or the inner value)".toList⟩,
  ⟨"vec".toList, "Sequence of values (JSON: array)".toList⟩,
  ⟨"record".toList, "Named fields (JSON: object, or array in field order)".toList⟩,
  ⟨"variant".toList, "One of several cases (JSON: single-key object)".toList⟩,
  ⟨"func".toList, "Function reference type".toList⟩,
  ⟨"service".toList, "Service reference type or the actor definition".toList⟩,
  ⟨"query".toList, "Read-only method mode".toList⟩,
  ⟨"composite_query".toList, "Read-only method that may call other queries".toList⟩,
  ⟨"oneway".toList, "Method without a reply".toList⟩,
  ⟨"import".toList, "Import definitions from another .did file".toList⟩]

/-- The keywords that open a type and are offered where a type is expected. -/
def typeKeywords : List Entry :=
  keywords.filter fun entry =>
    ["opt".toList, "vec".toList, "record".toList, "variant".toList].contains entry.word

def entryOf? (word : Text) (entries : List Entry) : Option Entry :=
  entries.find? (·.word == word)

end Candid.Editor
