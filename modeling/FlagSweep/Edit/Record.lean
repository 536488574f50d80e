import FlagSweep.Edit.Basic
/-!
Records of edits. Edits are recorded one after the other, and a whole record may be put behind another one.
-/

namespace FlagSweep.Edit

/-- A step of a record. -/
inductive Step where
  | replace (span : Span) (fragments : List Fragment)
  | removeStatement (span : Span)
  /-- The edits of another record come behind those that are there. -/
  | extend (steps : List Step)
  deriving Inhabited

mutual

/-- The edits that a step records. -/
def Step.edits : Step → List Edit
  | .replace span fragments => [Edit.replace span fragments]
  | .removeStatement span => [Edit.removeStatement span]
  | .extend steps => record steps

/-- The edits that some steps record, in order. -/
def record : List Step → List Edit
  | [] => []
  | step :: steps => step.edits ++ record steps

end

@[simp] theorem record_append (a b : List Step) : record (a ++ b) = record a ++ record b := by
  induction a with
  | nil => rfl
  | cons step a ih => rw [List.cons_append, record, record, ih, List.append_assoc]

/-- Putting a record behind another one is recording its steps one after the other. -/
theorem record_extend (before inner after : List Step) :
    record (before ++ .extend inner :: after) = record (before ++ inner ++ after) := by
  rw [record_append, record, Step.edits, record_append, record_append, List.append_assoc]

end FlagSweep.Edit
