import FeelingsOverflow.Screens.SnipScreen
import FeelingsOverflow.Screens.Journal

open RichText

namespace DiaryPostingScreen

-- What the button for snippets does.
inductive Cut
  | highlightValidText
  | selectShorterLengths
  | snip (screen : SnipScreen)

variable (q : Editor AttributeValue) (quillController : QuillController AttributeValue)

def onCut : Option Cut :=
  let selection := quillController.selection
  if selection.start = selection.stop then
    some .highlightValidText
  else if selection.stop - selection.start > 100 then
    some .selectShorterLengths
  else
    (SnipScreen.opened q quillController).map .snip

end DiaryPostingScreen

namespace SnipScreen

-- The post that the button of the screen makes.
def post (json : JsonCoding (List (StyledUnit AttributeValue))) (s : SnipScreen) (currentUser : Uid)
    (offset now timestamp : Int) : Firestore.Document :=
  let (content, background) := s.posted json
  FirebaseMethods.postCard (.string content) background currentUser offset now timestamp

end SnipScreen
