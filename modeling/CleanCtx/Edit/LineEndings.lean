import CleanCtx.Library.LineEndings
import CleanCtx.Edit.Written

/-!
Line endings of an edited file. Texts are rewritten into the convention of the
unit they touch, which for a file with one convention is that of the file; an LF
file never gets a CR, and a CRLF file keeps whole endings unless a range ends
inside one that the same request has put there.
-/
namespace CleanCtx
namespace Edit

open Traced

def EditOperation.text : EditOperation → String
  | replaceBody _ _ newText => newText
  | insertAfter _ unitText | insertBefore _ unitText => unitText
  | delete .. => ""

variable {source : String} {units : UnitTable} {operations : List EditOperation}
  {planned : List PlannedEdit} {report : ApplyReport} {edit : PlannedEdit}

end Edit
end CleanCtx
