/-!
# Faults

What goes wrong outside the language: it is no diagnostic of a program but ends the whole run. The
first three are arithmetic and texts that the machine refuses; the others come from documents and
values that no program makes. Types are named as messages name them.
-/

namespace Lumen

/-- What makes long texts of shorter ones. -/
inductive Growth where
  | repetition
  | concatenation
  | replacement
  | caseMapping
deriving DecidableEq, Repr

inductive Fault where
  /-- The remainder of an infinite number. -/
  | infiniteRemainder
  /-- A text was to be repeated more often than a machine word counts. -/
  | repeatCount
  /-- A text was to get longer than a machine word counts. -/
  | tooLong (growth : Growth)
  /-- A document nests deeper than there is room to read or to write it. -/
  | documentTooDeep
  /-- A document names a kind of node that there is not. -/
  | unknownNode (shown : String)
  /-- A document lacks a field. -/
  | missingField (name : String)
  /-- A document names a kind of token that there is not; the name is shown as messages quote it. -/
  | unknownTokenKind (shown : String)
  /-- A field was read of what is no object. -/
  | notAnObject (typeName : String)
  /-- A list or an object stands where a name has to. -/
  | notAName (typeName : String)
  /-- The items were asked of what is no list. -/
  | notAList (typeName : String)
  /-- A parameter has something other than a text for its name. -/
  | parameterName (index : Nat) (typeName : String)
  /-- A number token holds something of this type, which is no number. -/
  | noNumber (typeName : String)
  /-- A number token holds a text that writes no number. -/
  | unreadableNumber (text : String)
  /-- An integer beyond the range of doubles. -/
  | integerTooLarge
  /-- What a text token holds instead of a text was to be printed. -/
  | unprintable (typeName : String)
  /-- What has no length was measured, or taken for a condition. -/
  | noLength (typeName : String)
  /-- An operation that makes no sense for two types of data. -/
  | operandTypes (symbol left right : String)
  /-- A list or a text was joined to something else. -/
  | notJoined (left right : String)
  /-- Data of two types that have no order. -/
  | unordered (symbol left right : String)
  /-- A text was to be replaced by or with something that is none. -/
  | replacement (argument : Nat) (typeName : String)
  /-- A prompt that is no text. -/
  | prompt (typeName : String)
  /-- What is no node was to be evaluated. -/
  | notEvaluable (typeName : String)
  /-- The bare value has no copy. -/
  | notCopyable
  /-- A node holds something of the wrong shape, or a value lacks the capability asked of it. -/
  | malformed
  /-- A text is no document. -/
  | invalidDocument
  | missingFile
  | isDirectory
deriving DecidableEq, Repr

end Lumen
