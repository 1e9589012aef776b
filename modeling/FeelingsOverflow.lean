import FeelingsOverflow.Execution.Run
import FeelingsOverflow.Execution.Machine
import FeelingsOverflow.Execution.Async
import FeelingsOverflow.Execution.Lifecycle
import FeelingsOverflow.Execution.Serial
import FeelingsOverflow.Execution.Linearization
import FeelingsOverflow.Execution.Reconcile
import FeelingsOverflow.Execution.Keeps
import FeelingsOverflow.Execution.Bisimulation
import FeelingsOverflow.Execution.Since
import FeelingsOverflow.Calendar.Date
import FeelingsOverflow.Calendar.DateTime
import FeelingsOverflow.Calendar.Order
import FeelingsOverflow.RichText.Document
import FeelingsOverflow.RichText.Editor
import FeelingsOverflow.Firestore.Document
import FeelingsOverflow.Firestore.Query
import FeelingsOverflow.Firestore.Schema
import FeelingsOverflow.Functionality.FirebaseMethods
import FeelingsOverflow.Functionality.ImageFunctions
import FeelingsOverflow.Functionality.Posts
import FeelingsOverflow.Functionality.JsonCoding
import FeelingsOverflow.Functionality.WordSelector
import FeelingsOverflow.Functionality.TextFormatting
import FeelingsOverflow.Functionality.Calls
import FeelingsOverflow.Functionality.PairView
import FeelingsOverflow.Functionality.Settle
import FeelingsOverflow.Functionality.SocialGraph
import FeelingsOverflow.Functionality.Columns
import FeelingsOverflow.Functionality.Theorems.Symmetry
import FeelingsOverflow.Functionality.Theorems.NonInterference
import FeelingsOverflow.Functionality.Theorems.Refinement
import FeelingsOverflow.Functionality.Theorems.Atomicity
import FeelingsOverflow.Functionality.Theorems.Withdrawal
import FeelingsOverflow.Functionality.Theorems.Selection
import FeelingsOverflow.Functionality.Theorems.Linearizability
import FeelingsOverflow.Functionality.Theorems.Following
import FeelingsOverflow.Functionality.Theorems.Retries
import FeelingsOverflow.Functions.Index
import FeelingsOverflow.Functions.Theorems.Delivery
import FeelingsOverflow.Design.Cards
import FeelingsOverflow.Design.FontCards
import FeelingsOverflow.Screens.Authentication
import FeelingsOverflow.Screens.Loader
import FeelingsOverflow.Screens.HomeTab
import FeelingsOverflow.Screens.PostReader
import FeelingsOverflow.Screens.Feed
import FeelingsOverflow.Screens.Journal
import FeelingsOverflow.Screens.DiaryCreator
import FeelingsOverflow.Screens.SnipScreen
import FeelingsOverflow.Screens.OtherUserProfile
import FeelingsOverflow.Screens.ProfileTab
import FeelingsOverflow.Screens.EditProfile
import FeelingsOverflow.Screens.SearchTab
import FeelingsOverflow.Screens.RequestList
import FeelingsOverflow.Screens.UserList
import FeelingsOverflow.Screens.Search
import FeelingsOverflow.Screens.DashBoard
import FeelingsOverflow.Screens.App
import FeelingsOverflow.Screens.Sound
import FeelingsOverflow.Screens.Pair
import FeelingsOverflow.Screens.Completed
import FeelingsOverflow.Screens.PosterCards
import FeelingsOverflow.Screens.Writes
import FeelingsOverflow.Screens.Notebook
import FeelingsOverflow.Screens.FeedSession
import FeelingsOverflow.Screens.DiaryPosting
import FeelingsOverflow.Screens.Navigation
import FeelingsOverflow.Screens.Theorems.Representation
import FeelingsOverflow.Screens.Theorems.Consent
import FeelingsOverflow.Screens.Theorems.Acceptance
import FeelingsOverflow.Screens.Theorems.Exclusion
import FeelingsOverflow.Screens.Theorems.RequestButton
import FeelingsOverflow.Screens.Theorems.UnfollowButton
import FeelingsOverflow.Screens.Theorems.Profile
import FeelingsOverflow.Screens.Theorems.RequestLoader
import FeelingsOverflow.Screens.Theorems.RequestRows
import FeelingsOverflow.Screens.Theorems.UserRows
import FeelingsOverflow.Screens.Theorems.SearchResults
import FeelingsOverflow.Screens.Theorems.ProfileEdits
import FeelingsOverflow.Screens.Theorems.ProfilePicture
import FeelingsOverflow.Screens.Theorems.Disposal
import FeelingsOverflow.Screens.Theorems.Visibility
import FeelingsOverflow.Screens.Theorems.PostDate
import FeelingsOverflow.Screens.Theorems.FeedOrder
import FeelingsOverflow.Screens.Theorems.Readable
import FeelingsOverflow.Screens.Theorems.ExactlyOnce
import FeelingsOverflow.Screens.Theorems.ProfileView
import FeelingsOverflow.Screens.Theorems.FontSelection
import FeelingsOverflow.Screens.Theorems.Formatting
import FeelingsOverflow.Screens.Theorems.Attribution
import FeelingsOverflow.Screens.Theorems.UserDocuments
import FeelingsOverflow.Screens.Theorems.NotebookRefinement
import FeelingsOverflow.Screens.Theorems.JournalHistory
import FeelingsOverflow.Screens.Theorems.FeedSession
import FeelingsOverflow.Screens.Theorems.Snippet
import FeelingsOverflow.Screens.Theorems.Navigation
