import CrossBook.Amount
import CrossBook.Chain.OrderJson
import CrossBook.Chain.RestingBook
import CrossBook.CommandLine
import CrossBook.Engine.Session
import CrossBook.Json.Printer
import CrossBook.Json.Reader
import CrossBook.Main
import CrossBook.Market
import CrossBook.Proofs.Engine.Cooldowns
import CrossBook.Proofs.Engine.Costs
import CrossBook.Proofs.Engine.Guarding
import CrossBook.Proofs.Engine.Minimums
import CrossBook.Proofs.Engine.Pairs
import CrossBook.Proofs.Engine.Settlements
import CrossBook.Proofs.Engine.Spending
import CrossBook.Proofs.Engine.Unwinding
import CrossBook.Proofs.Rehearsal.Permutations
import CrossBook.Proofs.Rehearsal.Readings
import CrossBook.Proofs.Tick.HumanPrices
import CrossBook.Proofs.Tick.Prices
import CrossBook.Proofs.Trade.BuyBack
import CrossBook.Proofs.Trade.Cutting
import CrossBook.Proofs.Trade.Deviation
import CrossBook.Proofs.Trade.Growth
import CrossBook.Proofs.Trade.Judgement
import CrossBook.Proofs.Trade.Margin
import CrossBook.Proofs.Trade.Messages
import CrossBook.Proofs.Trade.Opportunity
import CrossBook.Proofs.Trade.Overflow
import CrossBook.Proofs.Trade.Resizing
import CrossBook.Proofs.Trade.Simulations
import CrossBook.Proofs.Trade.Sufficiency
import CrossBook.Proofs.Trade.Turns
import CrossBook.Proofs.Venue.Book
import CrossBook.Proofs.Venue.Layouts
import CrossBook.Proofs.Venue.Reordering
import CrossBook.Proofs.Venue.Rescaling
import CrossBook.Proofs.Venue.Shelf
import CrossBook.Rehearsal.Directory
import CrossBook.Rehearsal.World
import CrossBook.Settings.Document
import CrossBook.Tick
import CrossBook.Trade.Funding
import CrossBook.Trade.Minimum
import CrossBook.Trade.Profit
import CrossBook.Trade.Walk
import CrossBook.Venue.Shelf
