import SqlQuery.Closure.Basic
import SqlQuery.Field
import SqlQuery.Filter.Grammar
import SqlQuery.Query.BuildError
import SqlQuery.Sql.Expression

/-!
# Errors

All that can fail between a text or a build and its SQL.
-/

namespace SqlQuery

/-- A failure of one of the library's parts. -/
inductive Error where
  | parse (cause : Filter.ParseError)
  | closure (cause : Closure.ClosureError)
  | render (cause : RenderError)
  | field (cause : FieldError)
  | build (cause : BuildError)
  | format (cause : Sql.FormatError)

namespace Error

def message : Error → String
  | .parse cause => "Parse error: " ++ cause.message
  | .closure cause => "Lambda error: " ++ cause.message
  | .render cause => "Render error: " ++ cause.message
  | .field cause => "Field error: " ++ cause.message
  | .build cause => "Build error: " ++ cause.message
  | .format cause => "Format error: " ++ cause.message

end Error

end SqlQuery
