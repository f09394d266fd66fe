import ApiPages.Conversion
import ApiPages.Proofs.Report

/-! The Markdown files of a conversion: a real run writes them one after another, and a dry run says
the same paths and changes nothing. -/
namespace ApiPages

/-- Texts written into files one after another, into directories that are there. -/
def Files.Tree.writeAll (tree : Files.Tree) (texts : List (Files.Path × Text)) :
    Except Files.FileError Files.Tree :=
  texts.foldlM (fun tree text => tree.write text.1 (Files.encode text.2)) tree

namespace Render

end Render

namespace Conversion

/-- The Markdown files of a conversion, in the order of writing. -/
def texts (ctx : Render.Context) (output : Files.Path) : List (Files.Path × Text) :=
  if ctx.singleDocument then [(output, Render.document ctx)]
  else (Render.pages ctx).map fun page => (Render.pagePath output page, page.content)

end Conversion
end ApiPages
