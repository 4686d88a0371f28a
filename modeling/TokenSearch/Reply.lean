import TokenSearch.DocId

/-!
# Replies

The reply to a command is rendered as one line. A list of ids is ascending and has no repeats.
-/

namespace TokenSearch

/-- The outcome of a command. -/
inductive Reply
  | indexed (id : DocId)
  | results (ids : IdSet)
  | indexFailed (message : String)
  | queryFailed (message : String)
  | invalidCommand

namespace Reply

/-- Whether a command has failed. -/
def isError : Reply → Bool
  | .indexed _ => false
  | .results _ => false
  | _ => true

/-- The line of a reply. -/
def text : Reply → String
  | .indexed id => "index ok " ++ id.text
  | .results ids => "query results [" ++ ", ".intercalate (ids.toList.map DocId.text) ++ "]"
  | .indexFailed message => "index error " ++ message
  | .queryFailed message => "query error " ++ message
  | .invalidCommand => "invalid command"

end Reply

end TokenSearch
