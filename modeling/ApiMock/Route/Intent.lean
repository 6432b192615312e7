import ApiMock.Naming
/-!
# Route — intents and statuses

What an operation means for the store behind it follows from its method
and from whether its path ends in a placeholder. `GET` lists or finds one
record, `POST` creates, `PUT` and `PATCH` update, `DELETE` deletes, and
every other method is a custom query.
-/

namespace ApiMock

/-- What a route does with the records of its group. -/
inductive Intent where
  | list
  | getById
  | create
  | update
  | delete
  | custom
  deriving DecidableEq, Repr

namespace Intent

/-- The word for an intent. -/
def label : Intent → String
  | list => "list"
  | getById => "getById"
  | create => "create"
  | update => "update"
  | delete => "delete"
  | custom => "custom"

/-- The operation of the generated store that serves an intent. -/
def storeOperation : Intent → String
  | list => "findAll"
  | getById => "findById"
  | create => "create"
  | update => "update"
  | delete => "delete"
  | custom => "query"

/-- The intent of a method in upper case on a path. -/
def ofMethod (method : String) (trailing : Bool) : Intent :=
  if method = "GET" then (if trailing then getById else list)
  else if method = "POST" then create
  else if method = "PUT" || method = "PATCH" then update
  else if method = "DELETE" then delete
  else custom

/-- The intent of a method, in any case, on a path. -/
def classify (method path : String) : Intent :=
  ofMethod (Naming.upper method) (Naming.hasTrailingPlaceholder path)

end Intent

/-- The words for a status: three have their own. -/
def statusText (status : Int) : String :=
  if status = 200 then "OK"
  else if status = 201 then "Created"
  else if status = 204 then "No Content"
  else "Success"

end ApiMock
