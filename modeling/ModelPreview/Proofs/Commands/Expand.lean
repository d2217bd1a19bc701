import ModelPreview.Commands.Basic
import ModelPreview.Proofs.Commands.AtomicWrite
import ModelPreview.Proofs.Reports

/-!
# The outcome of an expansion

All of an expansion's reading is done before anything is written, and expanding only logs, so there
is nothing to see of a batch that cannot be read, and of any other one the rendering of all reports
is printed, or written as a whole. Failed declarations count only after that, and not if the
rendering cannot be brought out.
-/

namespace ModelPreview

open Session

namespace FileSystem

end FileSystem

namespace Command

end Command

namespace ExpandArguments

end ExpandArguments

namespace Command

variable {a : ExpandArguments} {world loaded before after : World} {o : Options}
  {ds : List Declaration}

end Command

end ModelPreview
