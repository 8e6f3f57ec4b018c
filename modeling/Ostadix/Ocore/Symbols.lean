import Ostadix.Ocore.Checked

/-! # Linker symbols

A mangled symbol writes `__` where the path of the module and the name of the item have `::`. The
checker keeps the paths apart, but names may contain `__` themselves. -/

namespace Ostadix.Ocore

open Ast Lib List

end Ostadix.Ocore
